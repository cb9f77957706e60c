import SuiteDriver.Proofs.Launches

/-!
# What a report shows

A report is a list that grows by one outcome after each launch, and all that it shows is a view of
that list: the number of launches, the names of the suites, the first build and the status in the
end. The views agree with each other after every row of outcomes, and after a run that was not cut
short they show the steps of the plan.

* `StepKind.AreSuites`, `StepKind.FirstBuildAt`: what is shown, said of the kinds of steps alone;
* `Report.outcomes_pushAll`: a report holds what was pushed, in order;
* `Run.outcomes_of_completed`: the report of a run holds one outcome for each step of the plan;
* `Report.views_agree`: all views, for outcomes in any order and for the run of any plan.
-/

namespace SuiteDriver

/-! ## 1. Kinds of steps in a row -/

namespace StepKind

/-- **The names of the suites** in a row of kinds: every suite and no build is named, in order and
    as often as it is there. -/
def AreSuites (names : List String) (kinds : List StepKind) : Prop :=
  names.map suite = kinds.filter (· ≠ build)

/-- **The first build** in a row of kinds is at a place. -/
def FirstBuildAt (kinds : List StepKind) (i : Nat) : Prop :=
  kinds[i]? = some build ∧ ∀ j < i, kinds[j]? ≠ some build

/-- The names of the suites in a row of kinds. -/
def suiteNames (kinds : List StepKind) : List String := kinds.filterMap suiteName?

@[simp] theorem suiteNames_build (kinds : List StepKind) :
    suiteNames (build :: kinds) = suiteNames kinds := rfl

@[simp] theorem suiteNames_suite (name : String) (kinds : List StepKind) :
    suiteNames (suite name :: kinds) = name :: suiteNames kinds := rfl

theorem suiteNames_append (kinds more : List StepKind) :
    suiteNames (kinds ++ more) = suiteNames kinds ++ suiteNames more := List.filterMap_append

theorem map_suite_suiteNames (kinds : List StepKind) :
    (suiteNames kinds).map suite = kinds.filter (· ≠ build) := by
  induction kinds with
  | nil => rfl
  | cons kind kinds ih =>
    cases kind with
    | build => rw [suiteNames_build, ih, List.filter_cons_of_neg (by decide)]
    | suite name =>
      rw [suiteNames_suite, List.map_cons, ih, List.filter_cons_of_pos (by simp)]

/-- A row of kinds has one row of names. -/
theorem areSuites_iff {names : List String} {kinds : List StepKind} :
    AreSuites names kinds ↔ suiteNames kinds = names := by
  unfold AreSuites
  rw [← map_suite_suiteNames, List.map_inj_right fun _ _ h => suite.inj h]
  exact eq_comm

/-- Every kind is a suite or a build. -/
theorem length_eq_suites_add_builds (kinds : List StepKind) :
    kinds.length = (suiteNames kinds).length + kinds.count build := by
  induction kinds with
  | nil => rfl
  | cons kind kinds ih =>
    cases kind with
    | build =>
      rw [suiteNames_build, List.count_cons_self, List.length_cons]
      omega
    | suite name =>
      rw [suiteNames_suite, List.count_cons_of_ne (by simp), List.length_cons, List.length_cons]
      omega

end StepKind

/-! ## 2. What is pushed -/

/-- The kinds of the steps that ended, in order. -/
def kindsOf (os : List Outcome) : List StepKind := os.map fun o => o.step.kind

theorem kindsOf_append (os more : List Outcome) : kindsOf (os ++ more) = kindsOf os ++ kindsOf more :=
  List.map_append

namespace Report

/-- The report after a row of outcomes. -/
def pushAll (r : Report) (os : List Outcome) : Report := os.foldl push r

variable {r : Report} {o : Outcome} (os : List Outcome)

theorem outcomes_push (r : Report) (o : Outcome) : (r.push o).outcomes = r.outcomes ++ [o] := rfl

/-- **A report holds what was pushed**, after what it held before. -/
theorem outcomes_pushAll (r : Report) : (r.pushAll os).outcomes = r.outcomes ++ os := by
  induction os generalizing r with
  | nil => exact (List.append_nil _).symm
  | cons o os ih =>
    show ((r.push o).pushAll os).outcomes = _
    rw [ih, outcomes_push, List.append_assoc, List.singleton_append]

/-- A row in two parts is pushed part by part. -/
theorem pushAll_append (r : Report) (more : List Outcome) :
    r.pushAll (os ++ more) = (r.pushAll os).pushAll more := List.foldl_append

theorem outcomes_pushAll_empty : (empty.pushAll os).outcomes = os := outcomes_pushAll os empty

/-- The names of the suites are read off the kinds. -/
theorem suiteOrder_eq (r : Report) : r.suiteOrder = StepKind.suiteNames (kindsOf r.outcomes) := by
  unfold suiteOrder StepKind.suiteNames kindsOf
  rw [List.filterMap_map]
  rfl

/-- What is pushed later is shown later. -/
theorem suiteOrder_pushAll (r : Report) :
    (r.pushAll os).suiteOrder = r.suiteOrder ++ (empty.pushAll os).suiteOrder := by
  rw [suiteOrder_eq, suiteOrder_eq, suiteOrder_eq, outcomes_pushAll, outcomes_pushAll_empty,
    kindsOf_append, StepKind.suiteNames_append]

theorem suiteOrder_eq_iff {names : List String} :
    r.suiteOrder = names ↔ StepKind.AreSuites names (kindsOf r.outcomes) := by
  rw [suiteOrder_eq, StepKind.areSuites_iff]

/-- Every process that was launched ran a suite or a build. -/
theorem launches_eq (r : Report) :
    r.launches = r.suiteOrder.length + (kindsOf r.outcomes).count .build := by
  rw [suiteOrder_eq, ← StepKind.length_eq_suites_add_builds, kindsOf, List.length_map]
  rfl

/-- A build that is shown stays when one more outcome is pushed. -/
theorem buildOutcome?_push_of_some (h : r.buildOutcome? = some o) (next : Outcome) :
    (r.push next).buildOutcome? = some o := by
  unfold buildOutcome? at h ⊢
  rw [outcomes_push, List.find?_append, h]
  rfl

/-- **A build that is shown stays**, whatever is pushed after it. -/
theorem buildOutcome?_pushAll_of_some (h : r.buildOutcome? = some o) :
    (r.pushAll os).buildOutcome? = some o := by
  induction os generalizing r with
  | nil => exact h
  | cons next os ih => exact ih (buildOutcome?_push_of_some h next)

theorem kindsOf_getElem?_eq_build {os : List Outcome} {i : Nat} (h : os[i]? = some o) :
    (kindsOf os)[i]? = some .build ↔ o.step.isBuild = true := by
  unfold kindsOf Step.isBuild
  rw [List.getElem?_map, h]
  simp

/-- **The build that is shown is the first.** -/
theorem buildOutcome?_eq_some_iff :
    r.buildOutcome? = some o ↔
      ∃ i, StepKind.FirstBuildAt (kindsOf r.outcomes) i ∧ r.outcomes[i]? = some o := by
  unfold buildOutcome? StepKind.FirstBuildAt
  rw [List.find?_eq_some_iff_getElem]
  constructor
  · intro ⟨hbuild, i, hi, ho, hbefore⟩
    have hget : r.outcomes[i]? = some o := List.getElem?_eq_some_iff.mpr ⟨hi, ho⟩
    refine ⟨i, ⟨(kindsOf_getElem?_eq_build hget).mpr hbuild, fun j hj hkind => ?_⟩, hget⟩
    have hother := (kindsOf_getElem?_eq_build (List.getElem?_eq_getElem (by omega))).mp hkind
    simpa [hother] using hbefore j hj
  · intro ⟨i, ⟨hkind, hbefore⟩, hget⟩
    obtain ⟨hi, ho⟩ := List.getElem?_eq_some_iff.mp hget
    refine ⟨(kindsOf_getElem?_eq_build hget).mp hkind, i, hi, ho, fun j hj => ?_⟩
    have hother := mt (kindsOf_getElem?_eq_build
      (List.getElem?_eq_getElem (Nat.lt_trans hj hi))).mpr (hbefore j hj)
    simpa using hother

end Report

/-! ## 3. The report of a run -/

/-- What is recorded of a launch that was not refused is the step and what was answered. -/
theorem Answer.outcome_eq_iff {s : Step} {a : Answer} {o : Outcome} (h : a.isRefusal = false) :
    Answer.outcome s a = o ↔
      s = o.step ∧ a.status = .ok o.exitCode ∧ a.elapsed = o.duration := by
  rw [Answer.status_of_not_isRefusal h]
  obtain ⟨step, code, duration⟩ := o
  simp [Answer.outcome]

/-- Each step has an outcome of its own. -/
theorem kindsOf_outcomes {ss : List Step} {answers : List Answer}
    (h : answers.length = ss.length) :
    kindsOf (List.zipWith (fun s a => Answer.outcome s a) ss answers) = ss.map Step.kind := by
  unfold kindsOf
  rw [List.map_zipWith, ← List.map_uncurry_zip_eq_zipWith]
  exact (List.map_map (f := Prod.fst) (g := Step.kind)).symm.trans
    (congrArg (List.map Step.kind) (List.map_fst_zip (Nat.le_of_eq h.symm)))

namespace Run

/-- **A run that was not cut short has answered every launch, and its report holds one outcome for
    each step of the plan**, with the code and the time of the answer. -/
theorem outcomes_of_completed {plan : Plan} {dir : String} {launcher : Launcher}
    {files : FileSystem} {report : Report}
    (h : (ofPlan plan dir launcher files).result = .ok report) :
    let answers := launcher.answers [] files (plan.launches dir)
    (∀ a ∈ answers, a.isRefusal = false) ∧
      report.outcomes = List.zipWith (fun s a => Answer.outcome s a) plan.steps answers := by
  intro answers
  have hstarted : ∀ a ∈ answers, a.isRefusal = false := by
    have hok := isOk_result_steps plan.variant plan.mode dir launcher ⟨[], Report.empty, files⟩
      plan.steps
    have hdone : (steps plan.variant plan.mode dir launcher ⟨[], Report.empty, files⟩
        plan.steps).result.isOk = true := by
      show (ofPlan plan dir launcher files).result.isOk = true
      rw [h]
      rfl
    rw [hdone, eq_comm, Bool.not_eq_true', List.any_eq_false] at hok
    exact fun a ha => Bool.eq_false_iff.mpr (hok a ha)
  have hresult := result_steps_of_started plan.variant plan.mode dir launcher
    ⟨[], Report.empty, files⟩ plan.steps hstarted
  refine ⟨hstarted, ?_⟩
  have hsame : (Except.ok report : Except LaunchFault Report) = _ := h.symm.trans hresult
  cases hsame
  rfl

/-- Where nothing was refused, an outcome is that of the step and the answer at its place. -/
theorem outcome_getElem?_iff {ss : List Step} {answers : List Answer} {i : Nat} {o : Outcome}
    (h : ∀ a ∈ answers, a.isRefusal = false) :
    (List.zipWith (fun s a => Answer.outcome s a) ss answers)[i]? = some o ↔
      ss[i]? = some o.step ∧
        ∃ a, answers[i]? = some a ∧ a.status = .ok o.exitCode ∧ a.elapsed = o.duration := by
  rw [List.getElem?_zipWith_eq_some]
  constructor
  · intro ⟨s, a, hs, ha, ho⟩
    obtain ⟨rfl, hcode, htime⟩ := (Answer.outcome_eq_iff (h a (List.mem_of_getElem? ha))).mp ho
    exact ⟨hs, a, ha, hcode, htime⟩
  · intro ⟨hs, a, ha, hcode, htime⟩
    exact ⟨o.step, a, hs, ha,
      (Answer.outcome_eq_iff (h a (List.mem_of_getElem? ha))).mpr ⟨rfl, hcode, htime⟩⟩

end Run

namespace Report

/-- **All views of a report agree, and show what was launched.** After outcomes were pushed in any
    order, as many launches are shown as outcomes, the names are those of the suites in order, and
    what is pushed later is named later; each launch that is no named suite is a build; the build
    shown is the first, and stays; and the status is success. After a run that was not cut short the
    names are those of the suites of the plan, and the build shown is the first of the plan, with
    the code and the time of the answer to it. -/
theorem views_agree :
    (∀ os : List Outcome,
      let r := empty.pushAll os
      r.launches = os.length ∧
      (∀ names, r.suiteOrder = names ↔ StepKind.AreSuites names (kindsOf os)) ∧
      (∀ more, (empty.pushAll (os ++ more)).suiteOrder =
        r.suiteOrder ++ (empty.pushAll more).suiteOrder) ∧
      r.launches = r.suiteOrder.length + (kindsOf os).count .build ∧
      (∀ o, r.buildOutcome? = some o ↔
        ∃ i, StepKind.FirstBuildAt (kindsOf os) i ∧ os[i]? = some o) ∧
      (∀ o more, r.buildOutcome? = some o →
        (empty.pushAll (os ++ more)).buildOutcome? = some o) ∧
      r.exitStatus = 0) ∧
    ∀ (plan : Plan) (dir : String) (launcher : Launcher) (files : FileSystem) (report : Report),
      (Run.ofPlan plan dir launcher files).result = .ok report →
      (∀ names, report.suiteOrder = names ↔
        StepKind.AreSuites names (plan.steps.map Step.kind)) ∧
      ∀ o, report.buildOutcome? = some o ↔
        ∃ i, StepKind.FirstBuildAt (plan.steps.map Step.kind) i ∧ plan.steps[i]? = some o.step ∧
          ∃ a, (launcher.answers [] files (plan.launches dir))[i]? = some a ∧
            a.status = .ok o.exitCode ∧ a.elapsed = o.duration := by
  refine ⟨fun os => ?_, fun plan dir launcher files report h => ?_⟩
  · intro r
    have houtcomes : r.outcomes = os := outcomes_pushAll_empty os
    refine ⟨congrArg List.length houtcomes, fun names => ?_, fun more => ?_, ?_, fun o => ?_,
      fun o more h => ?_, rfl⟩
    · rw [suiteOrder_eq_iff, houtcomes]
    · rw [pushAll_append, suiteOrder_pushAll]
    · rw [launches_eq, houtcomes]
    · rw [buildOutcome?_eq_some_iff, houtcomes]
    · rw [pushAll_append]
      exact buildOutcome?_pushAll_of_some more h
  · obtain ⟨hstarted, houtcomes⟩ := Run.outcomes_of_completed h
    have hlength : (launcher.answers [] files (plan.launches dir)).length = plan.steps.length := by
      rw [Launcher.length_answers, Plan.launches, List.length_map]
    have hkinds : kindsOf report.outcomes = plan.steps.map Step.kind := by
      rw [houtcomes, kindsOf_outcomes hlength]
    refine ⟨fun names => ?_, fun o => ?_⟩
    · rw [suiteOrder_eq_iff, hkinds]
    · rw [buildOutcome?_eq_some_iff, hkinds]
      refine exists_congr fun i => and_congr_right fun _ => ?_
      rw [houtcomes, Run.outcome_getElem?_iff hstarted]

/-- A plan that begins with a suite and builds twice, of which the first build is killed: the suite is
    named as often as it ran, and the build that succeeded later is not the one shown. -/
theorem views_agree_of_two_builds :
    let make : Step := .build ⟨"make", []⟩
    let test : Step := .suite "a.All" ⟨"java", ["a.All"]⟩
    ∃ report : Report,
      (Run.ofPlan ⟨.jar, .blocking, test, [make, make, test]⟩ "/p"
        (Rehearsal.Script.launcher [⟨[], [], .ok (some 7)⟩, ⟨[], [], .ok none⟩])
        ⟨[], [], none⟩).result = .ok report ∧
      report.suiteOrder = ["a.All", "a.All"] ∧
      report.buildOutcome? = some ⟨make, none, Duration.zero⟩ := by
  intro make test
  refine ⟨_, rfl, ?_⟩
  obtain ⟨hnames, hbuild⟩ := views_agree.2 ⟨.jar, .blocking, test, [make, make, test]⟩ "/p"
    (Rehearsal.Script.launcher [⟨[], [], .ok (some 7)⟩, ⟨[], [], .ok none⟩]) ⟨[], [], none⟩ _ rfl
  refine ⟨(hnames _).mpr rfl, (hbuild _).mpr ⟨1, ⟨rfl, fun j hj => ?_⟩, rfl, _, rfl, rfl, rfl⟩⟩
  obtain rfl : j = 0 := by omega
  exact nofun

end Report

end SuiteDriver

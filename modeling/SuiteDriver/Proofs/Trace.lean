import SuiteDriver.Proofs.Launches
import SuiteDriver.Proofs.Stages

/-!
# The order of events

A trace is what happens in a run but for the records of the log. `Traced` says which events the
answers of a launcher lead to, step after step: a step is told to its end before the next one
starts, and nothing follows a step that is refused.

* `Run.steps_traced`: the trace of a run is the one that its answers lead to;
* `Traced.fair_of_prefix`: at every moment of it at most one launch waits for its answer, and every
  step that was launched and answered has been told, unless it was answered just now;
* `Run.ofPlan_traced`: all of this for the run of a plan, and what the default command adds to it.
-/

namespace SuiteDriver

/-! ## 1. Traces -/

namespace Event

/-- Whether the event is a record of the log. -/
def isRecord : Event → Bool
  | logged _ => true
  | _ => false

/-- Whether a process is launched. -/
def isLaunch : Event → Bool
  | launched _ => true
  | _ => false

/-- Whether a launch is answered. -/
def isAnswer : Event → Bool
  | answered _ _ => true
  | _ => false

/-- Whether a launch is answered, and not with a refusal. -/
def isSuccess : Event → Bool
  | answered (.ok _) _ => true
  | _ => false

/-- Whether a line tells the end of a step. -/
def isFinish : Event → Bool
  | said (.stepFinished _) => true
  | _ => false

/-- Whether a line tells the end of a run. -/
def isCompletion : Event → Bool
  | said (.runComplete _) => true
  | _ => false

end Event

/-- What happens, but for the records of the log. -/
def traceOf (events : List Event) : List Event := events.filter fun e => !e.isRecord

/-- After a build step one test whether the artifact is there at that moment, and a line if it is
    not; after a suite nothing. -/
def artifactTrace (variant : Variant) (l : Launch) (files : FileSystem) : List Event :=
  match l.step.kind with
  | .suite _ => []
  | .build =>
    .tested (Path.join l.directory variant.classpath)
        (files.hasEntry (Path.join l.directory variant.classpath)) ::
      (if files.hasEntry (Path.join l.directory variant.classpath) then []
      else [.said (.artifactMissing variant.classpath)])

/-- What is told of a step that was launched and ended with a code or without one. -/
def stepTrace (variant : Variant) (l : Launch) (a : Answer) (code : Option Int) : List Event :=
  [.said (.stepStarted l.step), .launched l, .answered (.ok code) a.output,
    .said (.stepFinished ⟨l.step, code, a.elapsed⟩)] ++ artifactTrace variant l a.files

/-- **The trace that launches and the answers to them lead to.** -/
inductive Traced (variant : Variant) : List (Launch × Answer) → List Event → Prop
  | done : Traced variant [] []
  | refused (l : Launch) (a : Answer) (e : OsError) (rest : List (Launch × Answer))
      (h : a.status = .error e) :
      Traced variant ((l, a) :: rest)
        [.said (.stepStarted l.step), .launched l, .answered (.error e) a.output]
  | ended (l : Launch) (a : Answer) (code : Option Int) (rest : List (Launch × Answer))
      (t : List Event) (h : a.status = .ok code) (ht : Traced variant rest t) :
      Traced variant ((l, a) :: rest) (stepTrace variant l a code ++ t)

theorem traceOf_append (xs ys : List Event) : traceOf (xs ++ ys) = traceOf xs ++ traceOf ys :=
  List.filter_append xs ys

theorem traceOf_artifactEvents (variant : Variant) (l : Launch) (files : FileSystem) :
    traceOf (Run.artifactEvents variant l.directory files l.step) =
      artifactTrace variant l files := by
  unfold artifactTrace
  cases hk : l.step.kind with
  | suite name => rw [Run.artifactEvents_of_suite variant l.directory files hk]; rfl
  | build =>
    dsimp only
    cases hp : files.hasEntry (Path.join l.directory variant.classpath) with
    | false => rw [Run.artifactEvents_of_missing hk hp]; rfl
    | true => rw [Run.artifactEvents_of_present hk hp]; rfl

/-- What a run tells of a step and what comes after it. -/
theorem traceOf_step (variant : Variant) (l : Launch) (a : Answer) (code : Option Int)
    (rest : List Event) :
    traceOf (Run.startEvents l ++ .answered (.ok code) a.output ::
      (Run.eventsOfEnd ⟨l.step, code, a.elapsed⟩ ++
        Run.artifactEvents variant l.directory a.files l.step ++ rest)) =
      stepTrace variant l a code ++ traceOf rest := by
  have hrest : traceOf (Run.artifactEvents variant l.directory a.files l.step ++ rest) =
      artifactTrace variant l a.files ++ traceOf rest := by
    rw [traceOf_append, traceOf_artifactEvents]
  exact congrArg ([Event.said (.stepStarted l.step), .launched l, .answered (.ok code) a.output,
    .said (.stepFinished ⟨l.step, code, a.elapsed⟩)] ++ ·) hrest

namespace Run

variable (variant : Variant) (mode : LaunchMode) (dir : String) (launcher : Launcher)

/-- **The trace of a run is the one that the answers lead to.** -/
theorem steps_traced (p : Progress) (ss : List Step) :
    Traced variant
      ((ss.map (Step.launch mode dir)).zip
        (launcher.answers p.launches p.files (ss.map (Step.launch mode dir))))
      (traceOf (steps variant mode dir launcher p ss).events) := by
  induction ss generalizing p with
  | nil => exact .done
  | cons s ss ih =>
    rw [List.map_cons, Launcher.answers, List.zip_cons_cons]
    generalize ha : launcher p.launches p.files (s.launch mode dir) = a
    cases h : a.status with
    | error e =>
      rw [steps_cons_of_error variant mode dir launcher (ha ▸ h), ha]
      exact .refused _ _ e _ h
    | ok code =>
      rw [steps_cons_of_ok variant mode dir launcher ha h]
      have hstep := traceOf_step variant (s.launch mode dir) a code
        (steps variant mode dir launcher (p.after (s.launch mode dir) a code) ss).events
      exact hstep ▸ .ended _ a code _ _ h (ih (p.after (s.launch mode dir) a code))

/-- A run that is refused ends with the start of the refused step, its launch and the answer. -/
theorem trace_of_error (p : Progress) (ss : List Step) (f : LaunchFault)
    (hf : (steps variant mode dir launcher p ss).result = .error f) :
    ∃ (before : List Event) (s : Step) (text : String),
      traceOf (steps variant mode dir launcher p ss).events =
        before ++ [.said (.stepStarted s), .launched (s.launch mode dir),
          .answered (.error f.source) text] ∧
      f = ⟨s.kind, s.command, f.source⟩ := by
  induction ss generalizing p with
  | nil => cases hf
  | cons s ss ih =>
    generalize ha : launcher p.launches p.files (s.launch mode dir) = a
    cases h : a.status with
    | error e =>
      rw [steps_cons_of_error variant mode dir launcher (ha ▸ h)] at hf ⊢
      cases hf
      exact ⟨[], s, _, rfl, rfl⟩
    | ok code =>
      rw [steps_cons_of_ok variant mode dir launcher ha h] at hf ⊢
      obtain ⟨before, s', text, htrace, hs'⟩ := ih (p.after (s.launch mode dir) a code) hf
      refine ⟨stepTrace variant (s.launch mode dir) a code ++ before, s', text, ?_, hs'⟩
      refine (traceOf_step variant (s.launch mode dir) a code _).trans ?_
      rw [htrace, List.append_assoc]

/-- A run that ends with a report has launched every step. -/
theorem launches_of_ok (p : Progress) (ss : List Step) (r : Report)
    (hr : (steps variant mode dir launcher p ss).result = .ok r) :
    r.launches = p.report.launches + ss.length := by
  induction ss generalizing p with
  | nil => cases hr; rfl
  | cons s ss ih =>
    cases h : (launcher p.launches p.files (s.launch mode dir)).status with
    | error e =>
      rw [steps_cons_of_error variant mode dir launcher h] at hr
      cases hr
    | ok code =>
      rw [steps_cons_of_ok variant mode dir launcher rfl h] at hr
      rw [ih _ hr]
      simp only [Progress.after, Report.push, Report.launches, List.length_append,
        List.length_cons, List.length_nil]
      omega

end Run

/-! ## 2. What holds at every moment of a trace -/

/-- Whether an event neither launches, nor answers, nor tells the end of a step. -/
def Event.isQuiet (e : Event) : Bool := !e.isLaunch && !e.isAnswer && !e.isFinish

/-- **A fair trace**: at most one launch waits for its answer, and all steps that were launched and
    answered have been told, but for one that was answered by the very last event. -/
structure Fair (t : List Event) : Prop where
  asked : t.countP Event.isAnswer ≤ t.countP Event.isLaunch
  waiting : t.countP Event.isLaunch ≤ t.countP Event.isAnswer + 1
  told : t.countP Event.isSuccess =
    t.countP Event.isFinish + if t.getLast?.any Event.isSuccess then 1 else 0

/-- A trace that leaves nothing open: no launch waits, and no end has still to be told. -/
structure Settled (t : List Event) : Prop where
  answered : t.countP Event.isLaunch = t.countP Event.isAnswer
  told : t.countP Event.isSuccess = t.countP Event.isFinish
  last : t.getLast?.any Event.isSuccess = false

theorem Event.quiet_cases {e : Event} (h : e.isQuiet = true) :
    e.isLaunch = false ∧ e.isAnswer = false ∧ e.isSuccess = false ∧ e.isFinish = false := by
  unfold Event.isQuiet at h
  simp only [Bool.and_eq_true, Bool.not_eq_true'] at h
  obtain ⟨⟨hl, ha⟩, hf⟩ := h
  refine ⟨hl, ha, ?_, hf⟩
  cases e with
  | answered status text => cases ha
  | _ => rfl

theorem settled_of_quiet {t : List Event} (h : ∀ e ∈ t, e.isQuiet = true) : Settled t := by
  have none_of {p : Event → Bool} (hp : ∀ e ∈ t, p e = false) : t.countP p = 0 :=
    List.countP_eq_zero.mpr fun e he => by rw [hp e he]; exact Bool.false_ne_true
  have hl := none_of fun e he => (Event.quiet_cases (h e he)).1
  have ha := none_of fun e he => (Event.quiet_cases (h e he)).2.1
  have hs := none_of fun e he => (Event.quiet_cases (h e he)).2.2.1
  have hf := none_of fun e he => (Event.quiet_cases (h e he)).2.2.2
  refine ⟨hl.trans ha.symm, hs.trans hf.symm, ?_⟩
  cases hlast : t.getLast? with
  | none => rfl
  | some e => exact (Event.quiet_cases (h e (List.mem_of_getLast? hlast))).2.2.1

theorem Settled.fair {t : List Event} (h : Settled t) : Fair t where
  asked := Nat.le_of_eq h.answered.symm
  waiting := by rw [h.answered]; exact Nat.le_succ _
  told := by rw [h.told, h.last]; rfl

/-- What follows a settled trace may be looked at alone. -/
theorem Settled.fair_append {t u : List Event} (ht : Settled t) (hu : Fair u) : Fair (t ++ u) := by
  have hlast : (t ++ u).getLast?.any Event.isSuccess = u.getLast?.any Event.isSuccess := by
    rw [List.getLast?_append]
    cases u.getLast? with
    | none => exact ht.last
    | some e => rfl
  have hasked := hu.asked
  have hwaiting := hu.waiting
  have htold := hu.told
  have hanswered := ht.answered
  have htold' := ht.told
  constructor
  · rw [List.countP_append, List.countP_append]
    omega
  · rw [List.countP_append, List.countP_append]
    omega
  · rw [List.countP_append, List.countP_append, hlast]
    omega

theorem Settled.append {t u : List Event} (ht : Settled t) (hu : Settled u) : Settled (t ++ u) where
  answered := by rw [List.countP_append, List.countP_append, ht.answered, hu.answered]
  told := by rw [List.countP_append, List.countP_append, ht.told, hu.told]
  last := by
    rw [List.getLast?_append]
    cases hlast : u.getLast? with
    | none => exact ht.last
    | some e =>
      have := hu.last
      rw [hlast] at this
      exact this

/-- A prefix of two lists in a row ends in the first or goes on into the second. -/
theorem prefix_append_cases {u xs ys : List Event} (h : u <+: xs ++ ys) :
    u <+: xs ∨ ∃ v, u = xs ++ v ∧ v <+: ys := by
  rcases List.prefix_or_prefix_of_prefix h (List.prefix_append xs ys) with hu | ⟨v, rfl⟩
  · exact Or.inl hu
  · exact Or.inr ⟨v, rfl, (List.prefix_append_right_inj xs).mp h⟩

/-- Up to the answer to a launch, a step is fair. -/
theorem fair_of_prefix_asked {l : Launch} {status : Except OsError (Option Int)} {text : String}
    {u : List Event}
    (hu : u <+: [.said (.stepStarted l.step), .launched l, .answered status text]) : Fair u := by
  rcases List.prefix_cons_iff.mp hu with rfl | ⟨u₁, rfl, hu₁⟩
  · exact ⟨Nat.le_refl 0, Nat.zero_le 1, rfl⟩
  rcases List.prefix_cons_iff.mp hu₁ with rfl | ⟨u₂, rfl, hu₂⟩
  · exact ⟨Nat.le_refl 0, Nat.zero_le 1, rfl⟩
  rcases List.prefix_cons_iff.mp hu₂ with rfl | ⟨u₃, rfl, hu₃⟩
  · exact ⟨Nat.zero_le 1, Nat.le_refl 1, rfl⟩
  · rw [List.prefix_nil.mp hu₃]
    cases status <;> exact ⟨Nat.le_refl 1, Nat.le_succ 1, rfl⟩

/-- After a step there are only the test and the line about the artifact. -/
theorem forall_mem_artifactTrace {P : Event → Prop} (variant : Variant) (l : Launch)
    (files : FileSystem) (htest : ∀ path present, P (.tested path present))
    (hmissing : ∀ path, P (.said (.artifactMissing path))) :
    ∀ e ∈ artifactTrace variant l files, P e := by
  unfold artifactTrace
  cases l.step.kind with
  | suite name => exact List.forall_mem_nil _
  | build =>
    refine List.forall_mem_cons.mpr ⟨htest _ _, ?_⟩
    cases files.hasEntry (Path.join l.directory variant.classpath) with
    | true => exact List.forall_mem_nil _
    | false => exact List.forall_mem_singleton.mpr (hmissing _)

theorem quiet_artifactTrace (variant : Variant) (l : Launch) (files : FileSystem) :
    ∀ e ∈ artifactTrace variant l files, e.isQuiet = true :=
  forall_mem_artifactTrace variant l files (fun _ _ => rfl) fun _ => rfl

variable {variant : Variant} {ps : List (Launch × Answer)} {t u : List Event}

/-- The events of a step up to the line that tells its end leave nothing open. -/
theorem settled_told (l : Launch) (a : Answer) (code : Option Int) :
    Settled [.said (.stepStarted l.step), .launched l, .answered (.ok code) a.output,
      .said (.stepFinished ⟨l.step, code, a.elapsed⟩)] :=
  ⟨rfl, rfl, rfl⟩

theorem settled_stepTrace (variant : Variant) (l : Launch) (a : Answer) (code : Option Int) :
    Settled (stepTrace variant l a code) :=
  (settled_told l a code).append (settled_of_quiet (quiet_artifactTrace variant l a.files))

theorem fair_of_prefix_stepTrace {l : Launch} {a : Answer} {code : Option Int}
    (hu : u <+: stepTrace variant l a code) : Fair u := by
  rcases prefix_append_cases hu with htold | ⟨v, rfl, hv⟩
  · -- the line that tells the end is the only event after the answer
    have htold' : u <+: [.said (.stepStarted l.step), .launched l,
        .answered (.ok code) a.output] ++ [.said (.stepFinished ⟨l.step, code, a.elapsed⟩)] := htold
    rcases prefix_append_cases htold' with hasked | ⟨v, rfl, hv⟩
    · exact fair_of_prefix_asked hasked
    · rcases List.prefix_cons_iff.mp hv with rfl | ⟨w, rfl, hw⟩
      · exact fair_of_prefix_asked (List.prefix_refl _)
      · rw [List.prefix_nil.mp hw]
        exact (settled_told l a code).fair
  · refine (settled_told l a code).fair_append (settled_of_quiet fun e he => ?_).fair
    exact quiet_artifactTrace variant l a.files e (hv.subset he)

/-- **A trace is fair at every moment.** -/
theorem Traced.fair_of_prefix (h : Traced variant ps t) (hu : u <+: t) : Fair u := by
  induction h generalizing u with
  | done =>
    rw [List.prefix_nil.mp hu]
    exact (settled_of_quiet (List.forall_mem_nil _)).fair
  | refused l a e rest _ => exact fair_of_prefix_asked hu
  | ended l a code rest t _ _ ih =>
    rcases prefix_append_cases hu with hstep | ⟨v, rfl, hv⟩
    · exact fair_of_prefix_stepTrace hstep
    · exact (settled_stepTrace variant l a code).fair_append (ih hv)

/-- **In the end every step that was launched and answered has been told.** -/
theorem Traced.told (h : Traced variant ps t) :
    t.countP Event.isFinish = t.countP Event.isSuccess := by
  induction h with
  | done => rfl
  | refused => rfl
  | ended l a code rest t _ _ ih =>
    rw [List.countP_append, List.countP_append, ih,
      (settled_stepTrace variant l a code).told]

/-- A run does not say itself that it is complete. -/
theorem Traced.no_completion (h : Traced variant ps t) : ∀ e ∈ t, e.isCompletion = false := by
  induction h with
  | done => exact List.forall_mem_nil _
  | refused l a e rest _ =>
    simp only [List.forall_mem_cons]
    exact ⟨rfl, rfl, rfl, List.forall_mem_nil _⟩
  | ended l a code rest t _ _ ih =>
    refine List.forall_mem_append.mpr ⟨List.forall_mem_append.mpr ⟨?_, ?_⟩, ih⟩
    · simp only [List.forall_mem_cons]
      exact ⟨rfl, rfl, rfl, rfl, List.forall_mem_nil _⟩
    · exact forall_mem_artifactTrace variant l a.files (fun _ _ => rfl) fun _ => rfl

/-! ## 3. What the default command adds -/

namespace RunCommand

/-- The line that a run of a plan is complete, with the number of its steps, if it is. -/
def completion (plan : Plan) (run : Run) : List Event :=
  match run.result with
  | .ok _ => [.said (.runComplete plan.steps.length)]
  | .error _ => []

/-- **A run is told between the setup and, if no step was refused, the line that it is
    complete.** -/
theorem traceOf_carryOut (s : Surroundings) (launcher : Launcher) (language : Language)
    (setup : Setup) :
    traceOf (carryOut s launcher language false setup).events =
      (Console.setupLines setup.root setup.configPath setup.plan).map .said ++
        traceOf (Run.ofPlan setup.plan setup.root launcher s.files).events ++
        completion setup.plan (Run.ofPlan setup.plan setup.root launcher s.files) := by
  have hsetup (events : List Event) : traceOf (setupEvents setup ++ events) =
      (Console.setupLines setup.root setup.configPath setup.plan).map .said ++ traceOf events := by
    rw [traceOf_append]
    rfl
  unfold carryOut completion
  cases h : (Run.ofPlan setup.plan setup.root launcher s.files).result with
  | error f =>
    simp only [Bool.false_eq_true, ↓reduceIte, h]
    rw [hsetup, List.append_nil]
  | ok report =>
    simp only [Bool.false_eq_true, ↓reduceIte, h]
    have hcount := Run.launches_of_ok setup.plan.variant setup.plan.mode setup.root launcher
      ⟨[], Report.empty, s.files⟩ setup.plan.steps report h
    rw [show report.launches = setup.plan.steps.length from hcount.trans (Nat.zero_add _),
      List.append_assoc, hsetup, traceOf_append, List.append_assoc]
    rfl

theorem traceOf_execute {s : Surroundings} {language chosen : Language} {options : RunOptions}
    {setup : Setup} (hprepare : Setup.prepare s language options = (chosen, .ok setup))
    (hdry : options.dryRun = false) (launcher : Launcher) :
    traceOf (execute s launcher language options).events =
      (Console.setupLines setup.root setup.configPath setup.plan).map .said ++
        traceOf (Run.ofPlan setup.plan setup.root launcher s.files).events ++
        completion setup.plan (Run.ofPlan setup.plan setup.root launcher s.files) := by
  unfold execute
  rw [hprepare, ← traceOf_carryOut s launcher chosen setup, ← hdry]

theorem filter_completion (plan : Plan) (run : Run) :
    (completion plan run).filter Event.isCompletion = completion plan run := by
  unfold completion
  cases run.result <;> rfl

end RunCommand

/-- **The order of events.** The trace of a run is, step after step, what its answers lead to. If a
    step is refused, its start, its launch and the answer are the last events. At every moment at
    most one launch waits, and all ends but one that is answered just now have been told; in the end
    all have been told. The default command puts the setup before the trace, and the line that the
    run is complete, with the number of its steps, after it, if no step was refused. -/
theorem Run.ofPlan_traced (plan : Plan) (dir : String) (launcher : Launcher)
    (files : FileSystem) :
    let run := Run.ofPlan plan dir launcher files
    let trace := traceOf run.events
    Traced plan.variant
      ((plan.launches dir).zip (launcher.answers [] files (plan.launches dir))) trace ∧
    (∀ f : LaunchFault, run.result = .error f →
      ∃ (before : List Event) (s : Step) (text : String),
        trace = before ++ [.said (.stepStarted s), .launched (s.launch plan.mode dir),
          .answered (.error f.source) text] ∧
        f = ⟨s.kind, s.command, f.source⟩) ∧
    (∀ u : List Event, u <+: trace → Fair u) ∧
    trace.countP Event.isFinish = trace.countP Event.isSuccess ∧
    ∀ (env : Environment) (language chosen : Language) (options : RunOptions) (setup : Setup),
      Setup.prepare ⟨env, files⟩ language options = (chosen, .ok setup) →
      setup.plan = plan → setup.root = dir → options.dryRun = false →
      let whole := traceOf (RunCommand.execute ⟨env, files⟩ launcher language options).events
      whole = (Console.setupLines dir setup.configPath plan).map .said ++ trace ++
        RunCommand.completion plan run ∧
      whole.filter Event.isCompletion = RunCommand.completion plan run := by
  intro run trace
  have htraced : Traced plan.variant
      ((plan.launches dir).zip (launcher.answers [] files (plan.launches dir))) trace :=
    Run.steps_traced plan.variant plan.mode dir launcher ⟨[], Report.empty, files⟩ plan.steps
  refine ⟨htraced, fun f hf => ?_, fun u hu => htraced.fair_of_prefix hu, htraced.told, ?_⟩
  · exact Run.trace_of_error plan.variant plan.mode dir launcher ⟨[], Report.empty, files⟩
      plan.steps f hf
  · rintro env language chosen options setup hprepare rfl rfl hdry whole
    have hwhole := RunCommand.traceOf_execute hprepare hdry launcher
    have hnone : trace.filter Event.isCompletion = [] :=
      List.filter_eq_nil_iff.mpr fun e he => by
        rw [htraced.no_completion e he]
        exact Bool.false_ne_true
    refine ⟨hwhole, ?_⟩
    show (traceOf _).filter Event.isCompletion = _
    rw [hwhole, List.filter_append, List.filter_append, hnone, RunCommand.filter_completion]
    rfl

/-- A host without any file on which the second launch is refused: the build ends with code two, the
    first suite is not started, and the run does not say that it is complete. -/
theorem Run.ofPlan_traced_refused_second :
    let launcher := Rehearsal.Script.launcher [⟨[], [], .ok (some 2)⟩, ⟨[], [], .error (.code 13)⟩]
    let whole := traceOf (RunCommand.execute ⟨[], ⟨[], [], none⟩⟩ launcher .english
      ⟨none, none, none, false, false⟩).events
    whole.filter Event.isCompletion = [] ∧
    ∃ before s text, whole = before ++ [.said (.stepStarted s),
      .launched (s.launch .spawnThenWait "/"), .answered (.error (.code 13)) text] := by
  intro launcher whole
  have hprepare : Setup.prepare ⟨[], ⟨[], [], none⟩⟩ .english ⟨none, none, none, false, false⟩ =
      (.english, .ok ⟨"/", none, Variant.plan .jar⟩) := by
    simp only [Setup.prepare, Option.getD_none, ProjectDir.resolve_point]
    rfl
  obtain ⟨_, hend, _, _, hwhole⟩ := ofPlan_traced (Variant.plan .jar) "/" launcher ⟨[], [], none⟩
  obtain ⟨hall, hcompletion⟩ := hwhole [] .english .english _ _ hprepare rfl rfl rfl
  obtain ⟨before, s, text, htrace, hs⟩ := hend ⟨_, _, .code 13⟩ rfl
  refine ⟨hcompletion,
    (Console.setupLines "/" none (Variant.plan .jar)).map .said ++ before, s, text, ?_⟩
  rw [htrace] at hall
  rw [List.append_assoc]
  exact hall.trans (List.append_nil _)

end SuiteDriver

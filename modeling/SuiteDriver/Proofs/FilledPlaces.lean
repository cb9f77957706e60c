import SuiteDriver.Commands

/-!
# Values are shown as they are

What a line says is its template with a value at each place, and nothing is looked at twice: a value
may hold the mark of a place, also when it is itself a filled template, as the label of a step is.
And a template leaves no place open: every mark in it starts a place that the message has a value
for.

* `Template.Filled`: a template and what it becomes, place by place;
* `Template.filled_fillFrom`: a template whose places are all known becomes what `fill` gives;
* `Message.says_iff`: so does every template of both languages, and it becomes nothing else;
* `Console.shown_with_values_as_they_are`: the lines of a run, and the words of a launch that failed.
-/

namespace SuiteDriver

/-! ## 1. Templates -/

namespace Template

variable {values : List (String × String)} {template shown : List Char}

/-- **A template with each of its places filled**: all else stands for itself, and a place is taken
    by its value, whatever is in it. A mark that starts no place, or a place without a value, is
    nowhere in such a template. -/
inductive Filled (values : List (String × String)) : List Char → List Char → Prop
  | done : Filled values [] []
  | char {c : Char} {template shown : List Char} (hc : c ≠ '%')
      (h : Filled values template shown) : Filled values (c :: template) (c :: shown)
  /-- A place, up to the first closing brace. -/
  | place {name template shown : List Char} {value : String} (hname : '\x7d' ∉ name)
      (hvalue : values.lookup (String.ofList name) = some value)
      (h : Filled values template shown) :
      Filled values ('%' :: '\x7b' :: (name ++ '\x7d' :: template)) (value.toList ++ shown)

/-- A name ends at the first closing brace. -/
theorem name_unique {name name' rest rest' : List Char} (hname : '\x7d' ∉ name)
    (hname' : '\x7d' ∉ name') (h : name ++ '\x7d' :: rest = name' ++ '\x7d' :: rest') :
    name = name' ∧ rest = rest' := by
  induction name generalizing name' with
  | nil =>
    cases name' with
    | nil => exact ⟨rfl, (List.cons.inj h).2⟩
    | cons d name' => exact absurd ((List.cons.inj h).1 ▸ List.mem_cons_self) hname'
  | cons c name ih =>
    cases name' with
    | nil => exact absurd ((List.cons.inj h).1.symm ▸ List.mem_cons_self) hname
    | cons d name' =>
      obtain ⟨rfl, hrest⟩ := List.cons.inj h
      obtain ⟨rfl, hsame⟩ := ih (fun hc => hname (List.mem_cons_of_mem _ hc))
        (fun hc => hname' (List.mem_cons_of_mem _ hc)) hrest
      exact ⟨rfl, hsame⟩

/-- **A template becomes one text.** -/
theorem Filled.unique {shown' : List Char} (h : Filled values template shown)
    (h' : Filled values template shown') : shown = shown' := by
  induction h generalizing shown' with
  | done =>
    cases h'
    rfl
  | char hc _ ih =>
    cases h' with
    | char _ h' => rw [ih h']
    | place => exact absurd rfl hc
  | @place name template shown value hname hvalue _ ih =>
    -- the name in front of the first closing brace is the same, whichever way the place is read
    generalize hwhole : '%' :: '\x7b' :: (name ++ '\x7d' :: template) = whole at h'
    cases h' with
    | done => cases hwhole
    | char hc => exact absurd (List.cons.inj hwhole).1.symm hc
    | place hname' hvalue' h' =>
      obtain ⟨rfl, rfl⟩ := name_unique hname hname' (List.cons.inj (List.cons.inj hwhole).2).2
      rw [hvalue] at hvalue'
      cases hvalue'
      rw [ih h']

/-- What is read of a template so far: nothing that matters, or the start of a place. -/
def startOf : Option (List Char) → List Char
  | none => []
  | some name => '%' :: '\x7b' :: name

/-- Whether every mark from the middle of a template on starts a place with one of these names. -/
def hasPlaces (names : List String) : Option (List Char) → List Char → Bool
  | none, [] => true
  | none, '%' :: '\x7b' :: r => hasPlaces names (some []) r
  | none, c :: r => c != '%' && hasPlaces names none r
  | some _, [] => false
  | some name, c :: r =>
    if c = '\x7d' then names.contains (String.ofList name) && hasPlaces names none r
    else hasPlaces names (some (name ++ [c])) r

/-- The characters of a literal are at hand if it is read as a list of them. -/
theorem hasPlaces_toList {names : List String} {text : String} (htext : text = String.ofList template)
    (h : hasPlaces names none template = true) : hasPlaces names none text.toList = true := by
  rw [htext, String.toList_ofList]
  exact h

theorem exists_lookup_of_mem {name : String} (h : name ∈ values.map Prod.fst) :
    ∃ value, values.lookup name = some value := by
  obtain ⟨⟨first, value⟩, hp, rfl⟩ := List.mem_map.mp h
  have hsome : (values.lookup first).isSome = true := by
    rw [List.lookup_isSome_iff]
    exact ⟨(first, value), hp, beq_self_eq_true first⟩
  exact Option.isSome_iff_exists.mp hsome

/-- **A template whose places have values becomes what is filled in**, from wherever it is read. -/
theorem filled_fillFrom {begun : Option (List Char)}
    (hbegun : ∀ name, begun = some name → '\x7d' ∉ name)
    (h : hasPlaces (values.map Prod.fst) begun template = true) :
    Filled values (startOf begun ++ template) (fillFrom values begun template) := by
  fun_induction hasPlaces (values.map Prod.fst) begun template with
  | case1 => exact .done
  | case2 r ih => exact ih (by simp) h
  | case3 c r hplace ih =>
    obtain ⟨hc, hrest⟩ := Bool.and_eq_true_iff.mp h
    have hfill : fillFrom values none (c :: r) = c :: fillFrom values none r := by
      rw [fillFrom]
      exact hplace
    rw [hfill]
    exact .char (bne_iff_ne.mp hc) (ih nofun hrest)
  | case4 => cases h
  | case5 name r ih =>
    obtain ⟨hname, hrest⟩ := Bool.and_eq_true_iff.mp h
    obtain ⟨value, hvalue⟩ := exists_lookup_of_mem (List.contains_iff_mem.mp hname)
    have hfill : fillFrom values (some name) ('\x7d' :: r) =
        value.toList ++ fillFrom values none r := by
      rw [fillFrom, if_pos rfl, valueAt, hvalue]
    rw [hfill]
    exact .place (hbegun name rfl) hvalue (ih nofun hrest)
  | case6 name c r hc ih =>
    -- the character belongs to the name, which is still free of closing braces
    have hfill : fillFrom values (some name) (c :: r) =
        fillFrom values (some (name ++ [c])) r := by
      rw [fillFrom, if_neg hc]
    have hmore : startOf (some name) ++ c :: r = startOf (some (name ++ [c])) ++ r := by
      simp [startOf]
    rw [hfill, hmore]
    refine ih (fun name' hsame => ?_) h
    obtain rfl := Option.some.inj hsame
    simpa [List.mem_append, Ne.symm hc] using hbegun name rfl

end Template

/-! ## 2. Messages -/

namespace Message

/-- **A text says a message in a language**: it is the template with the message's own values. -/
def Says (language : Language) (m : Message) (text : String) : Prop :=
  Template.Filled m.values (m.template language).toList text.toList

/-- No template has a place that its message has no value for. -/
theorem hasPlaces_template (language : Language) (m : Message) :
    Template.hasPlaces (m.values.map Prod.fst) none (m.template language).toList = true := by
  cases language with
  | english =>
    cases m with
    | variantSelected | artifactMissing =>
      exact Template.hasPlaces_toList String.ofList_append.symm rfl
    | _ => exact Template.hasPlaces_toList rfl rfl
  | chinese =>
    cases m with
    | variantSelected => exact Template.hasPlaces_toList String.ofList_append.symm rfl
    | _ => exact Template.hasPlaces_toList rfl rfl

/-- **A message is said by its text, and by no other.** -/
theorem says_iff {language : Language} {m : Message} {text : String} :
    m.Says language text ↔ text = m.text language := by
  have htext : m.Says language (m.text language) := by
    unfold Says Message.text Template.fill
    rw [String.toList_ofList]
    exact Template.filled_fillFrom (by simp) (hasPlaces_template language m)
  constructor
  · exact fun h => String.toList_inj.mp (h.unique htext)
  · rintro rfl
    exact htext

/-- What a message is said by. -/
theorem says_text (language : Language) (m : Message) : m.Says language (m.text language) :=
  says_iff.mpr rfl

end Message

/-! ## 3. Lines -/

/-- The message that names a mode. -/
def LaunchMode.nameMessage : LaunchMode → Message
  | .spawnThenWait => .spawnThenWaitName
  | .blocking => .blockingName

/-- The message that labels a step. -/
def StepKind.labelMessage : StepKind → Message
  | .build => .buildLabel
  | .suite name => .suiteLabel name

theorem LaunchMode.says_description (language : Language) (mode : LaunchMode) :
    mode.nameMessage.Says language (mode.description language) := by
  cases mode with
  | spawnThenWait => exact Message.says_text ..
  | blocking => exact Message.says_text ..

theorem StepKind.says_label (language : Language) (kind : StepKind) :
    kind.labelMessage.Says language (kind.label language) := by
  cases kind with
  | build => exact Message.says_text ..
  | suite name => exact Message.says_text ..

namespace Console

/-- The message of a configuration that was read, or of none. -/
def sourceMessage : Option String → Message
  | some path => .configLoaded path
  | none => .configDefaults

/-- The message of a step that has ended, under its label. -/
def endMessage (label : String) (o : Outcome) : Message :=
  match o.exitCode with
  | some code => .stepExited label (toString code) o.duration.text
  | none => .stepTerminated label o.duration.text

theorem Line.body_stepFinished (language : Language) (o : Outcome) :
    (Line.stepFinished o).body language =
      (endMessage (o.step.kind.label language) o).text language := by
  obtain ⟨step, exitCode, duration⟩ := o
  cases exitCode <;> rfl

/-- A line without colours is what it says, with a line end, and perhaps an empty line before. -/
theorem Line.render_plain (language : Language) (l : Line) :
    l.render language false =
      (if l.isSetOff then "\n" else "") ++ (l.body language ++ "\n") := by
  refine String.toList_inj.mp ?_
  unfold Line.render Line.renderChars
  rw [String.toList_ofList, String.toList_append, String.toList_append]
  cases l.isSetOff <;> simp

/-- **Whatever is shown is shown as it is.** In both languages each line of a run is its template
    with the values at their places, and so are the words of a launch that failed. A label is such
    a text as well, and is a value of the line it stands in; no value is looked at again. -/
theorem shown_with_values_as_they_are (language : Language) :
    (∀ root config plan, ∃ rootText sourceText modeText variantText : String,
      (Message.projectRoot root).Says language rootText ∧
      (sourceMessage config).Says language sourceText ∧
      plan.mode.nameMessage.Says language modeText ∧
      (Message.variantSelected plan.variant.name plan.variant.buildTarget plan.variant.classpath
        modeText).Says language variantText ∧
      renderAll language false (setupLines root config plan) =
        rootText ++ "\n" ++ (sourceText ++ "\n") ++ (variantText ++ "\n")) ∧
    (∀ step : Step, ∃ label text : String,
      step.kind.labelMessage.Says language label ∧
      (Message.stepStarting label step.command.line).Says language text ∧
      (Line.stepStarted step).render language false = "\n" ++ (text ++ "\n")) ∧
    (∀ outcome : Outcome, ∃ label text : String,
      outcome.step.kind.labelMessage.Says language label ∧
      (endMessage label outcome).Says language text ∧
      (Line.stepFinished outcome).render language false = text ++ "\n") ∧
    (∀ path, ∃ text : String, (Message.artifactMissing path).Says language text ∧
      (Line.artifactMissing path).render language false = text ++ "\n") ∧
    (∀ count, ∃ text : String, (Message.runComplete (toString count)).Says language text ∧
      (Line.runComplete count).render language false = "\n" ++ (text ++ "\n")) ∧
    (∀ fault : LaunchFault, ∃ label text : String,
      fault.kind.labelMessage.Says language label ∧
      (Message.launchFailed label fault.command.line).Says language text ∧
      (RunCommand.launchFault language fault).messages = text :: (Cause.launch fault).messages) := by
  refine ⟨fun root config plan => ?_, fun step => ?_, fun outcome => ?_, fun path => ?_,
    fun count => ?_, fun fault => ?_⟩
  · refine ⟨_, _, _, _, Message.says_text .., Message.says_text ..,
      plan.mode.says_description language, Message.says_text .., ?_⟩
    unfold renderAll setupLines
    simp only [List.map_cons, List.map_nil, Line.render_plain]
    cases config <;> simp [String.join, Line.isSetOff, Line.body, sourceMessage, String.append_assoc]
  · exact ⟨_, _, step.kind.says_label language, Message.says_text .., Line.render_plain ..⟩
  · refine ⟨_, _, outcome.step.kind.says_label language, Message.says_text .., ?_⟩
    rw [Line.render_plain, Line.body_stepFinished]
    exact String.empty_append
  · refine ⟨_, Message.says_text .., ?_⟩
    rw [Line.render_plain]
    exact String.empty_append
  · exact ⟨_, Message.says_text .., Line.render_plain ..⟩
  · exact ⟨_, _, fault.kind.says_label language, Message.says_text .., rfl⟩

/-- A suite whose name is the mark of another place. -/
example : (Line.stepStarted ⟨.suite "%\x7bcommand\x7d", ⟨"java", []⟩⟩).body .english =
    "Suite %\x7bcommand\x7d: java" := by decide

end Console

end SuiteDriver

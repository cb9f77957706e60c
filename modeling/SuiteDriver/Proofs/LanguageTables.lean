import SuiteDriver.Proofs.FilledPlaces

/-!
# The texts of a language

A language is written with its own table of texts, one for each message, and nothing else: each line
of a run is in the words of one table, the name of a mode and the label of a step within it
included, and so is what a fault says that the program was about to do. What launched processes
write, and what the system answers, is in no language of the program.

* `Message.tables`: the tables by the locales that name them;
* `Event.shownIn`, `Fault.complaintIn`: what is shown in the words of a table;
* `Language.exists_writtenIn`: every language is written with the table of its locale;
* `outputOf_eq_join_shownIn`, `Fault.complaint_eq_complaintIn`: what follows for what is shown.
-/

namespace SuiteDriver

/-! ## 1. In the words of a table -/

namespace Message

/-- The texts of every language, by the locale that names it. -/
def tables : List (String × (Message → String)) := [("en", english), ("zh-CN", chinese)]

/-- A message in the words of a table. -/
def textIn (texts : Message → String) (m : Message) : String := Template.fill (texts m) m.values

end Message

namespace Console.Line

/-- What a line says in the words of a table. A planned command is the same in all of them. -/
def wordsIn (texts : Message → String) : Line → String
  | projectRoot path => (Message.projectRoot path).textIn texts
  | configSource source => (sourceMessage source).textIn texts
  | variantChosen v mode =>
    (Message.variantSelected v.name v.buildTarget v.classpath
      (mode.nameMessage.textIn texts)).textIn texts
  | stepStarted s =>
    (Message.stepStarting (s.kind.labelMessage.textIn texts) s.command.line).textIn texts
  | stepFinished o => (endMessage (o.step.kind.labelMessage.textIn texts) o).textIn texts
  | artifactMissing path => (Message.artifactMissing path).textIn texts
  | dryRunBanner => Message.dryRunBanner.textIn texts
  | planned number command => "  " ++ toString number ++ ". " ++ command.line
  | runComplete count => (Message.runComplete (toString count)).textIn texts
  | configWritten path => (Message.configWritten path).textIn texts
  | configExists path => (Message.configExists path).textIn texts

/-- A line as it is shown in the words of a table. -/
def shownIn (texts : Message → String) (colours : Bool) (l : Line) : String :=
  (if l.isSetOff then "\n" else "") ++
    ((if colours then String.ofList (Ansi.paint l.style (l.wordsIn texts).toList)
      else l.wordsIn texts) ++ "\n")

end Console.Line

/-- **What an event shows in the words of a table**; what a process writes is not the program's. -/
def Event.shownIn (texts : Message → String) (colours : Bool) : Event → String
  | said line => line.shownIn texts colours
  | answered _ written => written
  | _ => ""

namespace Fault

/-- **The last words on a fault in the words of a table**; the cause is not the program's. -/
def complaintIn (texts : Message → String) (e : Fault) : String :=
  "Error: " ++
    ": ".intercalate ((e.contexts.map fun c => c.2.textIn texts) ++ e.cause.messages) ++
    (if e.cause = .config .malformed then "" else "\n")

/-- **The step that a fault names has its label in the words of a table.** -/
def LabelsIn (texts : Message → String) (e : Fault) : Prop :=
  ∀ c ∈ e.contexts, ∀ label command, c.2 = .launchFailed label command →
    ∃ f : LaunchFault, e.cause = .launch f ∧ label = f.kind.labelMessage.textIn texts

end Fault

/-! ## 2. Languages and their tables -/

/-- **A language is written with a table of texts.** -/
def Language.WrittenIn (language : Language) (texts : Message → String) : Prop :=
  ∀ m : Message, m.text language = m.textIn texts

/-- **Every language is written with the table of its locale.** -/
theorem Language.exists_writtenIn (language : Language) :
    ∃ texts, Message.tables.lookup language.tag = some texts ∧ language.WrittenIn texts := by
  cases language with
  | english => exact ⟨Message.english, rfl, fun _ => rfl⟩
  | chinese => exact ⟨Message.chinese, rfl, fun _ => rfl⟩

variable {language : Language} {texts : Message → String} (h : language.WrittenIn texts)

include h

theorem LaunchMode.description_eq_textIn (mode : LaunchMode) :
    mode.description language = mode.nameMessage.textIn texts := by
  cases mode <;> exact h _

theorem StepKind.label_eq_textIn (kind : StepKind) :
    kind.label language = kind.labelMessage.textIn texts := by
  cases kind <;> exact h _

namespace Console.Line

/-- What a line says is in the words of its language, and whatever is named in it is too. -/
theorem body_eq_wordsIn (l : Line) : l.body language = l.wordsIn texts := by
  cases l with
  | configSource source => cases source <;> exact h _
  | variantChosen v mode =>
    rw [body, wordsIn, mode.description_eq_textIn h, h]
  | stepStarted s =>
    rw [body, wordsIn, s.kind.label_eq_textIn h, h]
  | stepFinished o =>
    rw [body_stepFinished, o.step.kind.label_eq_textIn h, h]
    rfl
  | planned number command => rfl
  | _ => exact h _

theorem render_eq_shownIn (colours : Bool) (l : Line) :
    l.render language colours = l.shownIn texts colours := by
  unfold render renderChars shownIn
  rw [l.body_eq_wordsIn h]
  refine String.toList_inj.mp ?_
  cases l.isSetOff <;> cases colours <;> simp

end Console.Line

theorem Event.output_eq_shownIn (colours : Bool) (e : Event) :
    e.output language colours = e.shownIn texts colours := by
  cases e with
  | said line => exact line.render_eq_shownIn h colours
  | _ => rfl

/-- **What events put on the standard output is in the words of its language.** -/
theorem outputOf_eq_join_shownIn (colours : Bool) (events : List Event) :
    outputOf language colours events = String.join (events.map (Event.shownIn texts colours)) := by
  unfold outputOf
  rw [funext (Event.output_eq_shownIn h colours)]

/-- **The last words on a fault are in the words of the language that its contexts are in.** -/
theorem Fault.complaint_eq_complaintIn {e : Fault} (hspoken : ∀ c ∈ e.contexts, c.1 = language) :
    e.complaint = e.complaintIn texts := by
  have hcontexts : (e.contexts.map fun c => c.2.text c.1) =
      e.contexts.map fun c => c.2.textIn texts := by
    refine List.map_congr_left fun c hc => ?_
    rw [hspoken c hc, h]
  unfold complaint complaintIn message messages
  rw [hcontexts]

end SuiteDriver

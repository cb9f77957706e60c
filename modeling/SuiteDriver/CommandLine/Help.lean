import SuiteDriver.Ansi
import SuiteDriver.CommandLine.Misuse
import SuiteDriver.Message

/-!
# Help

The pages that are shown instead of a run. What is said about the program, its options and its
subcommands is in the reader's language; the frame around it is in English. In colours, headings and
the words that are typed stand out, and columns are as wide as without.

`HelpPage.text` is the whole of a page.
-/

namespace SuiteDriver.CommandLine

/-- The program's name. -/
def programName : String := "sst-test-driver"

/-- The program's version. -/
def versionText : String := programName ++ " 0.1.0\n"

/-- A page of help. -/
inductive HelpPage
  | program
  | init
  | help
deriving DecidableEq, Repr, Inhabited

/-- A part of a page, by how it looks in colours. -/
inductive Part
  | plain (text : String)
  | literal (text : String)
  | heading (text : String)
deriving DecidableEq, Repr

namespace Part

/-- What a part says. -/
def text : Part → String
  | plain s | literal s | heading s => s

/-- A part as it is written, with or without colours. -/
def render (colours : Bool) (p : Part) : String :=
  if !colours then p.text
  else
    match p with
    | plain s => s
    | literal s => String.ofList (Ansi.opening ['1'] ++ s.toList ++ Ansi.reset)
    | heading s =>
      String.ofList (Ansi.opening ['1'] ++ Ansi.opening ['4'] ++ s.toList ++ Ansi.reset)

end Part

/-- A row of a table. -/
structure Row where
  label : List Part
  description : String

/-- How many characters a label takes. -/
def Row.width (r : Row) : Nat := (r.label.map fun p => p.text.length).foldl (· + ·) 0

/-- Rows as lines, the descriptions in one column. -/
def table (rows : List Row) : List Part :=
  let width := (rows.map Row.width).foldl max 0
  rows.flatMap fun r =>
    .plain "  " :: r.label ++
      [.plain (String.ofList (List.replicate (width - r.width) ' ') ++ "  " ++ r.description ++ "\n")]

/-- The short name of a row, or room for one. -/
def shortColumn : Option Char → List Part
  | some c => [.literal ("-" ++ c.toString), .plain ", "]
  | none => [.plain "    "]

/-- The row of a flag. -/
def flagRow (f : Flag) (description : String) : Row :=
  ⟨shortColumn f.shortName? ++ [.literal f.display], description⟩

/-- The row of an option. -/
def optRow (o : Opt) (description : String) : Row :=
  ⟨shortColumn o.shortName? ++ [.literal ("--" ++ o.longName), .plain (" <" ++ o.valueName ++ ">")],
    description⟩

/-- What a flag does, in a language. -/
def describeFlag (l : Language) : Flag → String
  | .verbose => Message.verboseHelp.text l
  | .dryRun => Message.dryRunHelp.text l
  | .force => Message.forceHelp.text l
  | .help => "Print help"
  | .version => "Print version"

/-- What an option does, in a language. -/
def describeOpt (l : Language) : Opt → String
  | .lang => Message.languageHelp.text l
  | .projectDir => Message.projectDirHelp.text l
  | .config => Message.configHelp.text l
  | .variant => Message.variantHelp.text l ++ " " ++ Misuse.possibleValues

/-- What a flag or an option does, as a row. -/
def row (l : Language) : Name → Row
  | .flag f => flagRow f (describeFlag l f)
  | .opt o => optRow o (describeOpt l o)

/-- The flags and options of a level in the order of its page. -/
def listed : Level → List Name
  | .program =>
    [.opt .lang, .flag .verbose, .opt .projectDir, .opt .config, .opt .variant, .flag .dryRun,
      .flag .help, .flag .version]
  | .init => [.flag .force, .opt .lang, .flag .verbose, .opt .projectDir, .flag .help]

/-- What help is said to do. -/
def helpAbout : String := "Print this message or the help of the given subcommand(s)"

/-- A page: a sentence, what is typed and what may follow it, and tables. -/
def page (about typed rest : String) (tables : List (String × List Row)) : List Part :=
  [.plain (about ++ "\n\n"), .heading "Usage:", .plain " ", .literal typed, .plain (rest ++ "\n")] ++
    tables.flatMap fun t => .plain "\n" :: .heading (t.1 ++ ":") :: .plain "\n" :: table t.2

/-- The parts of a page in a language. -/
def HelpPage.parts (l : Language) : HelpPage → List Part
  | program =>
    page (Message.about.text l) programName " [OPTIONS] [COMMAND]"
      [("Commands",
          [⟨[.literal initWord], Message.initAbout.text l⟩, ⟨[.literal helpWord], helpAbout⟩]),
        ("Options", (listed .program).map (row l))]
  | init =>
    page (Message.initAbout.text l) (programName ++ " " ++ initWord) " [OPTIONS]"
      [("Options", (listed .init).map (row l))]
  | help =>
    page helpAbout (programName ++ " " ++ helpWord) " [COMMAND]..."
      [("Arguments", [⟨[.plain "[COMMAND]..."], "Print help for the subcommand(s)"⟩])]

/-- The text of a page in a language, with or without colours. -/
def HelpPage.text (l : Language) (colours : Bool) (p : HelpPage) : String :=
  String.join ((p.parts l).map (Part.render colours))

end SuiteDriver.CommandLine

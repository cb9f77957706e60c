import SuiteDriver.CommandLine.Help

/-!
# Reading the command line

The words are read from left to right. An option that was not given its value in the same word takes
the next one, unless that looks like a flag or an option. It is looked at, and can be found wrong,
only when the next known flag or option comes or the words of its level end; so a word that nothing
is known about is reported before an earlier wrong value. After the subcommand a second level
starts, with flags and options of its own; an option that is known at both levels may be given once
at each, and the later one wins.

`CommandLine.parse` is the whole reading of a command line.
-/

namespace SuiteDriver.CommandLine

/-! ## 1. What words say -/

/-- What the words of one level say so far. -/
structure Given where
  language : Option String
  projectDir : Option String
  config : Option String
  variant : Option Variant
  verbose : Bool
  dryRun : Bool
  force : Bool
deriving DecidableEq, Repr, Inhabited

/-- Why reading stops before a command is known. -/
inductive Stop
  | help (page : HelpPage)
  | version
  | misuse (m : Misuse)
deriving DecidableEq, Repr

namespace Given

/-- Nothing said. -/
def nothing : Given := ⟨none, none, none, none, false, false, false⟩

/-- Whether an option was given. -/
def hasOpt (g : Given) : Opt → Bool
  | .lang => g.language.isSome
  | .projectDir => g.projectDir.isSome
  | .config => g.config.isSome
  | .variant => g.variant.isSome

/-- Sets an option, if it can have the value. -/
def setOpt? (g : Given) (o : Opt) (value : String) : Except Misuse Given :=
  match o with
  | .lang => .ok { g with language := some value }
  | .projectDir => .ok { g with projectDir := some value }
  | .config =>
    if value = "" then .error (.missingValue .config) else .ok { g with config := some value }
  | .variant =>
    if value = "" then .error (.missingValue .variant)
    else if value ∈ Variant.names then .ok { g with variant := Variant.ofName? value }
    else .error (.invalidValue value)

/-- Sets an option that was not given before. -/
def giveOpt (g : Given) (o : Opt) (value : String) : Except Stop Given :=
  if g.hasOpt o then .error (.misuse (.repeated (.opt o)))
  else
    match g.setOpt? o value with
    | .ok h => .ok h
    | .error m => .error (.misuse m)

/-- Does what a flag at a level says. -/
def giveFlag (g : Given) (level : Level) (f : Flag) : Except Stop Given :=
  match f with
  | .help =>
    .error (.help (match level with
      | .program => .program
      | .init => .init))
  | .version => .error .version
  | .verbose =>
    if g.verbose then .error (.misuse (.repeated (.flag f))) else .ok { g with verbose := true }
  | .dryRun =>
    if g.dryRun then .error (.misuse (.repeated (.flag f))) else .ok { g with dryRun := true }
  | .force =>
    if g.force then .error (.misuse (.repeated (.flag f))) else .ok { g with force := true }

end Given

/-! ## 2. Words -/

/-- An option that has not been looked at yet. -/
inductive Pending
  | none
  | awaiting (o : Opt)
  | holding (o : Opt) (value : String)
deriving DecidableEq, Repr

/-- What the words of one level have led to. -/
structure State where
  given : Given
  /-- The option that has not been looked at yet. -/
  pending : Pending
deriving DecidableEq, Repr

namespace State

/-- Before the first word. -/
def initial : State := ⟨Given.nothing, .none⟩

/-- Looks at the pending option. -/
def settle (s : State) : Except Stop Given :=
  match s.pending with
  | .none => .ok s.given
  | .awaiting o => .error (.misuse (.missingValue o))
  | .holding o value => s.given.giveOpt o value

/-- A flag comes. -/
def onFlag (s : State) (level : Level) (f : Flag) : Except Stop State :=
  match s.settle with
  | .error e => .error e
  | .ok g =>
    match g.giveFlag level f with
    | .error e => .error e
    | .ok h => .ok ⟨h, .none⟩

/-- An option comes, with or without its value. -/
def onOpt (s : State) (o : Opt) (value : Option String) : Except Stop State :=
  match s.settle with
  | .error e => .error e
  | .ok g =>
    match value with
    | none => .ok ⟨g, .awaiting o⟩
    | some v =>
      match g.giveOpt o v with
      | .error e => .error e
      | .ok h => .ok ⟨h, .none⟩

/-- What follows the first equals sign, if there is one. -/
def attached? (s : List Char) : Option String :=
  match s.dropWhile (· ≠ '=') with
  | [] => none
  | _ :: value => some (String.ofList value)

/-- A word with two dashes in front, given without them. -/
def onLong (s : State) (level : Level) (word : List Char) : Except Stop State :=
  let name := word.takeWhile (· ≠ '=')
  match Name.ofLong? level name, attached? word with
  | none, _ => .error (.misuse (.unknownArgument ("--" ++ String.ofList name)))
  | some (.flag f), some value => .error (.misuse (.unneededValue value f))
  | some (.flag f), none => s.onFlag level f
  | some (.opt o), value => s.onOpt o value

/-- The value that follows a short name in one word, with or without an equals sign. -/
def clustered? : List Char → Option String
  | [] => none
  | c :: r => some (String.ofList (if c = '=' then r else c :: r))

/-- A word with one dash in front, given without it: short names of flags, of which the last may be
an option's with its value. -/
def onShort (s : State) (level : Level) : List Char → Except Stop State
  | [] => .ok s
  | c :: r =>
    match Name.ofShort? level c with
    | none => .error (.misuse (.unknownArgument ("-" ++ c.toString)))
    | some (.opt o) => s.onOpt o (clustered? r)
    | some (.flag f) =>
      match s.onFlag level f with
      | .error e => .error e
      | .ok t => t.onShort level r

/-- Whether the next word may be the value of an option. -/
def awaits? (s : State) : Option Opt :=
  match s.pending with
  | .awaiting o => some o
  | _ => none

end State

/-- What is wrong with a word that is neither a flag nor an option nor a value. -/
def strayWord (level : Level) (word : String) : Misuse :=
  match level with
  | .program => .unknownSubcommand word
  | .init => .unknownArgument word

/-- What is wrong with the first word after the one that ends all flags and options. -/
def strayAfterDashes (level : Level) (word : String) : Misuse :=
  if word = initWord ∨ word = helpWord then .unknownArgument word else strayWord level word

/-- What the words after the subcommand for help ask for. -/
def helpFor : List String → Stop
  | [] => .help .program
  | w :: ws =>
    if w = initWord ∨ w = helpWord then
      match ws with
      | [] => .help (if w = initWord then .init else .help)
      | v :: _ => .misuse (.unknownSubcommand v)
    else .misuse (.unknownSubcommand w)

/-- Reads the words of a level, up to the subcommand if there is one; then also gives the words
after it. -/
def readLevel (level : Level) (s : State) :
    List String → Except Stop (State × Option (List String))
  | [] => .ok (s, none)
  | w :: ws =>
    if level = .program ∧ s.awaits? = none ∧ w = initWord then .ok (s, some ws)
    else if level = .program ∧ s.awaits? = none ∧ w = helpWord then .error (helpFor ws)
    else
      match w.toList with
      | '-' :: '-' :: [] =>
        match ws with
        | [] => .ok (s, none)
        | v :: _ => .error (.misuse (strayAfterDashes level v))
      | '-' :: '-' :: long =>
        match s.onLong level long with
        | .error e => .error e
        | .ok t => readLevel level t ws
      | '-' :: c :: short =>
        match s.onShort level (c :: short) with
        | .error e => .error e
        | .ok t => readLevel level t ws
      | _ =>
        match s.awaits? with
        | some o => readLevel level { s with pending := .holding o w } ws
        | none => .error (.misuse (strayWord level w))

/-! ## 3. The levels -/

/-- What the levels of a command line say. -/
structure Levels where
  /-- What is said before the subcommand. -/
  outer : Given
  /-- What is said after it, if it is there. -/
  inner : Option Given
deriving DecidableEq, Repr

namespace Given

/-- What is said at an inner level, and, where that says nothing, what the outer one says; for what
is known at both. -/
def inherit (g outer : Given) : Given :=
  { g with
    language := g.language.or outer.language
    verbose := g.verbose || outer.verbose
    projectDir := g.projectDir.or outer.projectDir }

/-- What is said at a level, but for what is known at both as another level has it. -/
def adopt (g other : Given) : Given :=
  { g with
    language := other.language
    verbose := other.verbose
    projectDir := other.projectDir }

end Given

/-- What the levels say once what is known at both is handed on, first inwards and then outwards; so
what the inner level says wins. -/
def Levels.share (outer : Given) : Option Given → Levels
  | none => ⟨outer, none⟩
  | some inner => ⟨outer.adopt (inner.inherit outer), some (inner.inherit outer)⟩

/-- Reads both levels of a command line, without the program's name. -/
def parseLevels (words : List String) : Except Stop Levels :=
  match readLevel .program State.initial words with
  | .error e => .error e
  | .ok (outer, none) =>
    match outer.settle with
    | .error e => .error e
    | .ok g => .ok (Levels.share g none)
  | .ok (outer, some rest) =>
    match readLevel .init State.initial rest with
    | .error e => .error e
    | .ok (inner, _) =>
      match inner.settle with
      | .error e => .error e
      | .ok h =>
        match outer.settle with
        | .error e => .error e
        | .ok g => .ok (Levels.share g (some h))

/-! ## 4. The command line -/

/-- What a command line asks for. -/
structure Args where
  language : Option String
  verbose : Bool
  projectDir : Option String
  config : Option String
  variant : Option Variant
  dryRun : Bool
  /-- Whether to write a configuration instead of a run, and then whether to overwrite one. -/
  init : Option Bool
deriving DecidableEq, Repr, Inhabited

/-- What the levels ask for. The directory in which a configuration is written is looked up at the
inner level first. -/
def Levels.args (ls : Levels) : Args :=
  { language := ls.outer.language
    verbose := ls.outer.verbose
    projectDir := (ls.inner.bind Given.projectDir).or ls.outer.projectDir
    config := ls.outer.config
    variant := ls.outer.variant
    dryRun := ls.outer.dryRun
    init := ls.inner.map Given.force }

/-- Reads a command line, without the program's name. -/
def parse (words : List String) : Except Stop Args :=
  match parseLevels words with
  | .error e => .error e
  | .ok ls => .ok ls.args

/-! ## 5. The language before all else -/

/-- The option for the language, up to its value in the same word. -/
def languageOption : List Char := "--lang=".toList

/-- The value of the option for the language, if a word is that option with its value. -/
def languageOf? (word : String) : Option String :=
  if languageOption.isPrefixOf word.toList then
    some (String.ofList (word.toList.drop languageOption.length))
  else none

/-- The language that words ask for, found before they are read: what follows the first word that is
the option alone, else the value in the first word that has it. -/
def requestedLanguage (words : List String) : Option String :=
  match words.dropWhile (· ≠ "--lang") with
  | _ :: value :: _ => some value
  | [_] => none
  | [] => words.findSome? languageOf?

end SuiteDriver.CommandLine

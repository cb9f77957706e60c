/-!
# Locales and languages

A locale is a text such as `en-US`; the languages are those that messages are written in. An
explicit request wins over the system's locale. The whole locale is tried first, then its language
part, and English is what remains.

`Language.choose` is the one way by which a run gets its language.
-/

namespace SuiteDriver

/-! ## 1. Environment -/

/-- The variables that a process is started with; of two with one name the first counts. -/
abbrev Environment : Type := List (String × String)

namespace Environment

/-- What follows `front` in a text, if the text starts with it. -/
def after? (front : List Char) (text : String) : Option String :=
  if front.isPrefixOf text.toList then some (String.ofList (text.toList.drop front.length)) else none

/-- The value of a variable, if it is set. A process is handed each variable as one text, the name,
an equals sign and the value; so a name that holds an equals sign is found where its first part is
set to a value that starts with the rest of it and a further equals sign. -/
def get? (env : Environment) (name : String) : Option String :=
  let first := name.toList.takeWhile (· ≠ '=')
  match name.toList.drop first.length with
  | [] => env.lookup name
  | _ :: rest => (env.lookup (String.ofList first)).bind (after? (rest ++ ['=']))

/-- The value of a variable, if it is set and not empty. -/
def nonempty? (env : Environment) (name : String) : Option String :=
  (env.get? name).filter (· ≠ "")

/-- The environment without a variable. -/
def unset (env : Environment) (name : String) : Environment := env.filter (·.1 ≠ name)

/-- The environment with a variable set. -/
def set (env : Environment) (name value : String) : Environment := (name, value) :: env.unset name

end Environment

/-! ## 2. Locales -/

namespace Locale

/-- The language part of a locale: what stands before its first hyphen or underscore. -/
def languagePart (locale : String) : String :=
  String.ofList (locale.toList.takeWhile fun c => c ≠ '-' ∧ c ≠ '_')

/-- The entry of `available` that a locale selects: the locale itself, else its language part, else
English whether it is available or not. -/
def resolve (locale : String) (available : List String) : String :=
  if locale ∈ available then locale
  else if languagePart locale ∈ available then languagePart locale
  else "en"

/-- A locale from the environment without its encoding and modifier, with hyphens. -/
def normalize (s : String) : String :=
  String.ofList
    ((s.toList.takeWhile fun c => c ≠ '.' ∧ c ≠ '@').map fun c => if c = '_' then '-' else c)

/-- The first part of a list with colons between its parts. -/
def firstPart (s : String) : String := String.ofList (s.toList.takeWhile (· ≠ ':'))

/-- The locale that the environment asks for. -/
def system? (env : Environment) : Option String :=
  match env.nonempty? "LANGUAGE" with
  | some list => some (normalize (firstPart list))
  | none => (["LC_ALL", "LC_MESSAGES", "LANG"].findSome? env.nonempty?).map normalize

end Locale

/-! ## 3. Languages -/

/-- A language that messages are written in. -/
inductive Language
  | english
  | chinese
deriving DecidableEq, Repr, Inhabited

namespace Language

/-- All languages. -/
def all : List Language := [.english, .chinese]

/-- The locale that names the language. -/
def tag : Language → String
  | .english => "en"
  | .chinese => "zh-CN"

/-- The language that a locale names. -/
def ofTag? (tag : String) : Option Language := all.find? fun l => l.tag = tag

/-- The locales that name a language. -/
def tags : List String := all.map tag

/-- The language that a locale selects. -/
def ofLocale (locale : String) : Language :=
  (ofTag? (Locale.resolve locale tags)).getD .english

/-- The language of a run: the one requested, else the system's, else English. -/
def choose (env : Environment) (requested : Option String) : Language :=
  ofLocale ((requested.or (Locale.system? env)).getD "en")

/-! ## 4. The language of a locale that was not resolved -/

/-- Drops private marks at the end of a locale, written backwards. -/
def dropMarks : List Char → List Char
  | 'x' :: '-' :: r => dropMarks r
  | s => s

/-- The language of a locale, written backwards, or of what is left of it after at most `n` cuts at
its last hyphen. -/
def nearestFrom : Nat → List Char → Language
  | 0, _ => .english
  | n + 1, s =>
    match ofTag? (String.ofList s.reverse) with
    | some l => l
    | none =>
      match s.dropWhile (· ≠ '-') with
      | [] => .english
      | _ :: r => nearestFrom n (dropMarks r)

/-- The language in which messages for a locale are written. -/
def nearest (locale : String) : Language :=
  nearestFrom (locale.length + 1) locale.toList.reverse

end Language

end SuiteDriver

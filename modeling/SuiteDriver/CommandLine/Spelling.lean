import SuiteDriver.CommandLine.Parse

/-!
# Writing a command line

The printing side of `CommandLine/Parse`. An item is one thing that is said, a flag or an option
with its value; a spelling writes an item, or several short ones in one word; an arrangement puts
spellings before and after the subcommand. For each there are the words that it is written in and
what it says.

`Arrangement.words` is what `parseLevels` reads, and `Arrangement.levels` what it should find. In
the other direction `Args.items` is what has to be said, at one level or the other, to ask for
`Args`.
-/

namespace SuiteDriver.CommandLine

/-! ## 1. Names -/

namespace Name

/-- The long name. -/
def longName : Name → String
  | flag f => f.longName
  | opt o => o.longName

/-- The short name, if there is one. -/
def shortName? : Name → Option Char
  | flag f => f.shortName?
  | opt o => o.shortName?

/-- Whether a level knows the name. -/
def IsKnown (level : Level) : Name → Prop
  | flag f => f ∈ Flag.known level
  | opt o => o ∈ Opt.known level

instance (level : Level) : DecidablePred (IsKnown level)
  | flag f => inferInstanceAs (Decidable (f ∈ Flag.known level))
  | opt o => inferInstanceAs (Decidable (o ∈ Opt.known level))

end Name

/-! ## 2. Items -/

/-- One thing that is said. -/
inductive Item
  | flag (f : Flag)
  | opt (o : Opt) (value : String)
deriving DecidableEq, Repr

namespace Item

/-- What the item is about. -/
def name : Item → Name
  | flag f => .flag f
  | opt o _ => .opt o

/-- The value that the item gives to an option. -/
def valueFor? (o : Opt) : Item → Option String
  | flag _ => none
  | opt p value => if p = o then some value else none

/-- Whether the item lets the reading go on: it asks neither for help nor for the version, and an
option that is limited has a value within its limits. -/
def IsSayable : Item → Prop
  | flag f => f ≠ .help ∧ f ≠ .version
  | opt .config value => value ≠ ""
  | opt .variant value => (Variant.ofName? value).isSome
  | opt .lang _ | opt .projectDir _ => True

instance : DecidablePred IsSayable
  | flag f => inferInstanceAs (Decidable (f ≠ .help ∧ f ≠ .version))
  | opt .config value => inferInstanceAs (Decidable (value ≠ ""))
  | opt .variant value => inferInstanceAs (Decidable ((Variant.ofName? value).isSome = true))
  | opt .lang _ => isTrue trivial
  | opt .projectDir _ => isTrue trivial

end Item

/-- The value that items give to an option; of several the first. -/
def valueOf? (o : Opt) (is : List Item) : Option String := is.findSome? (Item.valueFor? o)

/-- Items that may be said together at one level: nothing twice, and each lets the reading go on. -/
structure Sayable (is : List Item) : Prop where
  once : (is.map Item.name).Nodup
  each : ∀ i ∈ is, i.IsSayable

instance (is : List Item) : Decidable (Sayable is) :=
  decidable_of_iff ((is.map Item.name).Nodup ∧ ∀ i ∈ is, i.IsSayable)
    ⟨fun ⟨h, k⟩ => ⟨h, k⟩, fun ⟨h, k⟩ => ⟨h, k⟩⟩

/-- What items say, as the words of one level say it. -/
def Given.ofItems (is : List Item) : Given :=
  { language := valueOf? .lang is
    projectDir := valueOf? .projectDir is
    config := valueOf? .config is
    variant := (valueOf? .variant is).bind Variant.ofName?
    verbose := decide (.flag .verbose ∈ is)
    dryRun := decide (.flag .dryRun ∈ is)
    force := decide (.flag .force ∈ is) }

/-! ## 3. Spellings -/

/-- A way to write an item, or several short ones in one word. -/
inductive Spelling
  | long (f : Flag)
  /-- An option by its long name, with an equals sign and the value in the same word. -/
  | longWith (o : Opt) (value : String)
  /-- An option by its long name, and the value as the next word. -/
  | longThen (o : Opt) (value : String)
  | short (f : Flag) (fs : List Flag)
  /-- Flags and then an option by their short names, with the value in the same word, after an
  equals sign or not. -/
  | shortWith (fs : List Flag) (o : Opt) (equals : Bool) (value : String)
  /-- Flags and then an option by their short names, and the value as the next word. -/
  | shortThen (fs : List Flag) (o : Opt) (value : String)
deriving DecidableEq, Repr

/-- Whether a word may stand as a value by itself: it has no dash in front, or is one dash. -/
def isValue (word : String) : Bool :=
  match word.toList with
  | '-' :: _ :: _ => false
  | _ => true

/-- The short names of flags. -/
def shortNames (fs : List Flag) : List Char := fs.filterMap Flag.shortName?

namespace Spelling

/-- The words of a spelling. -/
def words : Spelling → List String
  | long f => [String.ofList ('-' :: '-' :: f.longName.toList)]
  | longWith o value => [String.ofList ('-' :: '-' :: o.longName.toList ++ '=' :: value.toList)]
  | longThen o value => [String.ofList ('-' :: '-' :: o.longName.toList), value]
  | short f fs => [String.ofList ('-' :: shortNames (f :: fs))]
  | shortWith fs o equals value =>
    [String.ofList ('-' :: shortNames fs ++ o.shortName?.toList ++
      if equals then '=' :: value.toList else value.toList)]
  | shortThen fs o value => [String.ofList ('-' :: shortNames fs ++ o.shortName?.toList), value]

/-- What a spelling says. -/
def items : Spelling → List Item
  | long f => [.flag f]
  | longWith o value | longThen o value => [.opt o value]
  | short f fs => (f :: fs).map .flag
  | shortWith fs o _ value | shortThen fs o value => fs.map .flag ++ [.opt o value]

/-- Whether a level knows a name that is written short. -/
def IsShort (level : Level) (n : Name) : Prop := n.IsKnown level ∧ n.shortName?.isSome

instance (level : Level) : DecidablePred (IsShort level) :=
  fun n => inferInstanceAs (Decidable (n.IsKnown level ∧ n.shortName?.isSome = true))

/-- Whether a spelling may stand at a level: all its names are known there, a value that is a word
by itself looks like one, and a value that follows a short name at once does not start like the
equals sign that may stand between. -/
def IsFor (level : Level) : Spelling → Prop
  | long f => Name.IsKnown level (.flag f)
  | longWith o _ => Name.IsKnown level (.opt o)
  | longThen o value => Name.IsKnown level (.opt o) ∧ isValue value
  | short f fs => ∀ g ∈ f :: fs, IsShort level (.flag g)
  | shortWith fs o equals value =>
    (∀ g ∈ fs, IsShort level (.flag g)) ∧ IsShort level (.opt o) ∧
      (equals = false → value ≠ "" ∧ value.toList.head? ≠ some '=')
  | shortThen fs o value =>
    (∀ g ∈ fs, IsShort level (.flag g)) ∧ IsShort level (.opt o) ∧ isValue value

instance (level : Level) : DecidablePred (IsFor level)
  | long f => inferInstanceAs (Decidable (Name.IsKnown level (.flag f)))
  | longWith o _ => inferInstanceAs (Decidable (Name.IsKnown level (.opt o)))
  | longThen o value =>
    inferInstanceAs (Decidable (Name.IsKnown level (.opt o) ∧ isValue value = true))
  | short f fs => inferInstanceAs (Decidable (∀ g ∈ f :: fs, IsShort level (.flag g)))
  | shortWith fs o equals value =>
    inferInstanceAs (Decidable ((∀ g ∈ fs, IsShort level (.flag g)) ∧ IsShort level (.opt o) ∧
      (equals = false → value ≠ "" ∧ value.toList.head? ≠ some '=')))
  | shortThen fs o value =>
    inferInstanceAs (Decidable ((∀ g ∈ fs, IsShort level (.flag g)) ∧ IsShort level (.opt o) ∧
      isValue value = true))

end Spelling

/-! ## 4. Arrangements -/

/-- The words of spellings. -/
def written (ps : List Spelling) : List String := ps.flatMap Spelling.words

/-- What spellings say. -/
def said (ps : List Spelling) : List Item := ps.flatMap Spelling.items

/-- A command line as it is written. -/
structure Arrangement where
  outer : List Spelling
  inner : Option (List Spelling)
  /-- Whether two dashes end the line. -/
  closed : Bool
deriving DecidableEq, Repr

/-- The word that ends all flags and options. -/
def dashes : String := "--"

/-- The words that a level may end with. -/
def closing (closed : Bool) : List String := if closed then [dashes] else []

namespace Arrangement

/-- The words after the program's name. -/
def words (w : Arrangement) : List String :=
  written w.outer ++
    match w.inner with
    | none => closing w.closed
    | some ps => initWord :: (written ps ++ closing w.closed)

/-- Everything that is said, before the subcommand and after it. -/
def items (w : Arrangement) : List Item := said w.outer ++ said (w.inner.getD [])

/-- What the levels of the command line say. -/
def levels (w : Arrangement) : Levels :=
  Levels.share (.ofItems (said w.outer)) (w.inner.map fun ps => .ofItems (said ps))

/-- What the command line asks for. -/
def args (w : Arrangement) : Args := w.levels.args

/-- Whether every spelling stands at a level that has it. -/
structure IsPlaced (w : Arrangement) : Prop where
  outer : ∀ p ∈ w.outer, p.IsFor .program
  inner : ∀ p ∈ w.inner.getD [], p.IsFor .init

instance (w : Arrangement) : Decidable w.IsPlaced :=
  decidable_of_iff ((∀ p ∈ w.outer, p.IsFor .program) ∧ ∀ p ∈ w.inner.getD [], p.IsFor .init)
    ⟨fun ⟨h, k⟩ => ⟨h, k⟩, fun ⟨h, k⟩ => ⟨h, k⟩⟩

/-- Whether both levels say what may be said together. -/
structure IsSayable (w : Arrangement) : Prop where
  outer : Sayable (said w.outer)
  inner : Sayable (said (w.inner.getD []))

end Arrangement

/-! ## 5. What has to be said -/

namespace Args

/-- The value of an option that a command line asks for. -/
def value? (a : Args) : Opt → Option String
  | .lang => a.language
  | .projectDir => a.projectDir
  | .config => a.config
  | .variant => a.variant.map Variant.name

/-- Whether a command line asks for what a flag sets. -/
def isSet (a : Args) : Flag → Bool
  | .verbose => a.verbose
  | .dryRun => a.dryRun
  | .force => a.init = some true
  | .help | .version => false

/-- All that has to be said to ask for this, but for the subcommand: the value of every option that
has one, and every flag that is set. -/
def items (a : Args) : List Item :=
  [Opt.lang, .projectDir, .config, .variant].filterMap (fun o => (a.value? o).map (.opt o)) ++
    ([Flag.verbose, .dryRun, .force].filter a.isSet).map .flag

end Args

end SuiteDriver.CommandLine

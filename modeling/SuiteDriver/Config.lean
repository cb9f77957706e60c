import SuiteDriver.Number.Shortest
import SuiteDriver.Toml.Document
import SuiteDriver.Toml.Place
import SuiteDriver.Variant

/-!
# The configuration

A configuration is a TOML text with at most three keys: `language` and `project_dir`, which are
text, and `variant`, which is a variant's name, or a table with that name as its one key and nothing
under it. The keys are looked at in the order of their names, so which of several faults is reported
does not depend on the order of the lines.

`Config.parse` is the whole reading of a configuration.
-/

namespace SuiteDriver

open Toml

/-- What a configuration sets. -/
structure Config where
  language : Option String
  variant : Variant
  projectDir : Option String
deriving DecidableEq, Repr

namespace Config

/-- The configuration that sets nothing. -/
def empty : Config := ⟨none, Variant.standard, none⟩

/-! ## 1. Faults -/

/-- What a refused value is, for a key that takes text. -/
inductive Shape
  | integer (n : Int)
  | float (text : String)
  | boolean (b : Bool)
  | sequence
  /-- A table, a date or a time. -/
  | map
deriving DecidableEq, Repr

/-- Why a well-formed text is no configuration. -/
inductive Problem
  | unknownField (name : String)
  | notText (found : Shape)
  | unknownVariant (name : String)
  /-- A variant that is neither text nor a table. -/
  | variantForm
  | noName
  | severalNames
  /-- A single value under the name of a variant. -/
  | underName (kind : String)
  /-- Entries under the name of a variant. -/
  | filledTable
  /-- Items under the name of a variant. -/
  | filledArray
deriving DecidableEq, Repr

/-- Why a text is no configuration. -/
inductive ParseError
  /-- The text is not well formed, or a number in it has no value that can be named. -/
  | malformed
  /-- A key has too many segments. -/
  | tooDeep
  | refused (place : Place) (problem : Problem)
deriving DecidableEq, Repr

/-- A name between grave accents. -/
def quotedName (name : String) : String := "\x60" ++ name ++ "\x60"

/-- Names between grave accents, with commas between them. -/
def quotedNames (names : List String) : String := ", ".intercalate (names.map quotedName)

/-- Just above the whole numbers of 64 bits. -/
def limit64 : Int := 18446744073709551616

/-- Just above the whole numbers of 128 bits. -/
def limit128 : Int := limit64 * limit64

/-- The words for a refused value. A whole number beyond 64 bits is named with its width. -/
def Shape.message : Shape → String
  | .integer n =>
    let width :=
      if -limit64 ≤ 2 * n ∧ n < limit64 then ""
      else if 2 * n < limit128 then " as i128"
      else " as u128"
    "integer " ++ quotedName (toString n) ++ width
  | .float text => "floating point " ++ quotedName text
  | .boolean b => "boolean " ++ quotedName (if b then "true" else "false")
  | .sequence => "sequence"
  | .map => "map"

/-- The words for a fault. -/
def Problem.message : Problem → String
  | .unknownField name =>
    "unknown field " ++ quotedName name ++ ", expected one of " ++
      quotedNames ["language", "variant", "project_dir"]
  | .notText found => "invalid type: " ++ found.message ++ ", expected a string"
  | .unknownVariant name =>
    "unknown variant " ++ quotedName name ++ ", expected one of " ++
      quotedNames (Variant.all.map Variant.configName)
  | .variantForm => "wanted string or table"
  | .noName => "wanted exactly 1 element, found 0 elements"
  | .severalNames => "wanted exactly 1 element, more than 1 element"
  | .underName kind => "expected table, found " ++ kind
  | .filledTable => "expected empty table"
  | .filledArray => "expected empty array"

/-! ## 2. Decoding a table -/

/-- Why a table of entries is no configuration. -/
inductive Refusal
  /-- A number that has no value, or one beyond every range. -/
  | unreadable
  | fault (span : Span) (problem : Problem)
deriving DecidableEq, Repr

/-- What decoding gives. -/
abbrev Decoded (α : Type) := Except Refusal α

/-- The shape of a value that is not text, unless it is a number without a value or beyond every
range. -/
def shape? : Value → Option Shape
  | .text _ => none
  | .integer (some n) => if -limit128 ≤ 2 * n ∧ n < limit128 then some (.integer n) else none
  | .integer none => none
  | .float (.finite d) =>
    d.magnitude?.map fun x => .float ((if d.negative then "-" else "") ++ x.text)
  | .float (.infinite negative) => some (.float (if negative then "-inf" else "inf"))
  | .float .notANumber => some (.float "NaN")
  | .boolean b => some (.boolean b)
  | .moment => some .map
  | .array _ _ => some .sequence
  | .table _ _ => some .map

/-- A value that has to be text. -/
def decodeText (v : Located Value) : Decoded String :=
  match v.value with
  | .text s => .ok s
  | other =>
    match shape? other with
    | some found => .error (.fault v.span (.notText found))
    | none => .error .unreadable

/-- A variant by its name. -/
def decodeName (name : String) (span : Span) : Decoded Variant :=
  match Variant.ofConfigName? name with
  | some v => .ok v
  | none => .error (.fault span (.unknownVariant name))

/-- What stands under the name of a variant has to be empty. -/
def checkEmpty (v : Located Value) : Decoded Unit :=
  match v.value with
  | .table _ [] | .array _ [] => .ok ()
  | .table _ _ => .error (.fault v.span .filledTable)
  | .array _ _ => .error (.fault v.span .filledArray)
  | .text _ => .error (.fault v.span (.underName "string"))
  | .integer _ => .error (.fault v.span (.underName "integer"))
  | .float _ => .error (.fault v.span (.underName "float"))
  | .boolean _ => .error (.fault v.span (.underName "boolean"))
  | .moment => .error (.fault v.span (.underName "datetime"))

/-- A variant: its name, or a table with that name as its one key. -/
def decodeVariant (v : Located Value) : Decoded Variant :=
  match v.value with
  | .text s => decodeName s v.span
  | .table _ [] => .error (.fault v.span .noName)
  | .table _ [(key, under)] =>
    match decodeName key.name key.span with
    | .error e => .error e
    | .ok variant =>
      match checkEmpty under with
      | .error e => .error e
      | .ok () => .ok variant
  | .table _ _ => .error (.fault v.span .severalNames)
  | _ => .error (.fault v.span .variantForm)

/-- What one entry adds to a configuration. -/
def decodeEntry (c : Config) (entry : Key × Located Value) : Decoded Config :=
  let (key, v) := entry
  if key.name = "language" then
    match decodeText v with
    | .ok s => .ok { c with language := some s }
    | .error e => .error e
  else if key.name = "project_dir" then
    match decodeText v with
    | .ok s => .ok { c with projectDir := some s }
    | .error e => .error e
  else if key.name = "variant" then
    match decodeVariant v with
    | .ok x => .ok { c with variant := x }
    | .error e => .error e
  else .error (.fault key.span (.unknownField key.name))

/-- Adds what each entry says, up to the first fault. -/
def decodeFrom (c : Config) : Entries → Decoded Config
  | [] => .ok c
  | e :: es =>
    match decodeEntry c e with
    | .ok d => decodeFrom d es
    | .error x => .error x

/-- The entries in the order of their names. -/
def byName (es : Entries) : Entries := es.mergeSort fun a b => a.1.name ≤ b.1.name

/-- The configuration that a table of entries says. -/
def decode (es : Entries) : Decoded Config := decodeFrom empty (byName es)

/-! ## 3. Reading -/

/-- The error that a flaw of the text is. -/
def ParseError.ofFlaw : Flaw → ParseError
  | .malformed => .malformed
  | .tooDeep => .tooDeep

/-- The configuration that a text says, or why there is none. -/
def parse (text : String) : Except ParseError Config :=
  let source := text.toList
  match readEntries source with
  | .error flaw => .error (.ofFlaw flaw)
  | .ok es =>
    match decode es with
    | .ok c => .ok c
    | .error .unreadable => .error .malformed
    | .error (.fault span problem) => .error (.refused (Place.ofSpan source span) problem)

end Config

end SuiteDriver

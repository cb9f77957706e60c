import SuiteDriver.Locale
import SuiteDriver.Text.Alphanumeric

/-!
# Variables and the home directory in a text

A text is first cut into pieces: characters that stand for themselves, and variables. Only then are
the variables looked up, so the text of a value is never expanded again. A tilde at the start stands
for the home directory if the text as written started with one.

`Expand.full` is how every project directory is read.
-/

namespace SuiteDriver.Expand

/-! ## 1. Pieces -/

/-- A piece of a text with variables. -/
inductive Piece
  | literal (c : Char)
  /-- A variable, and what stands for it if it is not set. -/
  | variable (name : List Char) (fallback : Option (List Char))
deriving DecidableEq, Repr

/-- Characters of a variable's name without braces. -/
def isNameChar (c : Char) : Bool := Text.isAlphanumeric c || c == '_'

/-- Cuts at the first `:-`. -/
def cutDefault : List Char → List Char × Option (List Char)
  | [] => ([], none)
  | ':' :: '-' :: r => ([], some r)
  | c :: r => (c :: (cutDefault r).1, (cutDefault r).2)

/-- What stands between braces: a name, and a default after the first `:-` if a name stands before
it. -/
def braced (inside : List Char) : Piece :=
  match cutDefault inside with
  | ([], some _) => .variable inside none
  | (name, fallback) => .variable name fallback

/-- The pieces of a text. A dollar sign that starts no variable stands for itself, and two stand for
one. -/
def pieces : List Char → List Piece
  | [] => []
  | c :: r =>
    if c ≠ '$' then .literal c :: pieces r
    else
      match r with
      | [] => [.literal '$']
      | d :: t =>
        if d = '\x7b' then
          match _cut : t.dropWhile (· ≠ '\x7d') with
          | [] => .literal '$' :: .literal '\x7b' :: pieces t
          | _ :: u => braced (t.takeWhile (· ≠ '\x7d')) :: pieces u
        else if isNameChar d then
          .variable (d :: t.takeWhile isNameChar) none :: pieces (t.dropWhile isNameChar)
        else if d = '$' then .literal '$' :: pieces t
        else .literal '$' :: pieces (d :: t)
termination_by s => s.length
decreasing_by
  all_goals simp only [List.length_cons]
  · omega
  · omega
  · have := (List.dropWhile_sublist (l := t) (· ≠ '\x7d')).length_le
    rw [_cut] at this
    simp only [List.length_cons] at this
    omega
  · have := (List.dropWhile_sublist (l := t) isNameChar).length_le
    omega
  · omega
  · omega

/-! ## 2. Values -/

/-- What a piece stands for; the name of a variable that is not set and has no default is the
error. -/
def Piece.value (env : Environment) : Piece → Except String (List Char)
  | .literal c => .ok [c]
  | .variable name fallback =>
    match env.get? (String.ofList name), fallback with
    | some v, _ => .ok v.toList
    | none, some d => .ok d
    | none, none => .error (String.ofList name)

/-- What pieces stand for, up to the first error. -/
def values (env : Environment) : List Piece → Except String (List Char)
  | [] => .ok []
  | p :: ps =>
    match p.value env with
    | .error e => .error e
    | .ok v =>
      match values env ps with
      | .error e => .error e
      | .ok vs => .ok (v ++ vs)

/-- The home directory: the one that the environment names, else that of the account. An empty text
names none. -/
def home? (env : Environment) (account : Option String) : Option String :=
  (env.nonempty? "HOME").or (account.filter (· ≠ ""))

/-- Puts the home directory, if there is one, in place of a tilde that is a whole first segment. -/
def tilde (home : Option String) (s : List Char) : List Char :=
  match home, s with
  | some dir, ['~'] => dir.toList
  | some dir, '~' :: '/' :: r => dir.toList ++ '/' :: r
  | _, s => s

/-- The text with its variables and its tilde expanded, for an account with this home directory. -/
def full (env : Environment) (account : Option String) (raw : String) : Except String String :=
  match values env (pieces raw.toList) with
  | .error name => .error name
  | .ok s =>
    .ok (String.ofList (if raw.toList.head? = some '~' then tilde (home? env account) s else s))

end SuiteDriver.Expand

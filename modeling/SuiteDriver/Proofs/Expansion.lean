import Mathlib.Data.List.Forall2
import Mathlib.Data.List.TakeWhile
import SuiteDriver.Expand

/-!
# What an expanded text is made of

A text is cut into pieces before any variable is looked up, and the pieces, as they are written, are
the text. Each stands for one part of what the text is expanded to: a character for itself, a
variable for its value or, where it is not set, for its default. Of the environment nothing is read
but the variables that are named, and the home directory for a tilde.

* `Expand.pieces_spelled`: the pieces of a text spell the text;
* `Expand.named_of_mem_lookups`: what is looked up is named in it;
* `Expand.Gives`, `Expand.full_eq_ok_iff`: what a text is expanded to, part by part;
* `Expand.full_congr`: environments that a text cannot tell apart.
-/

namespace SuiteDriver.Expand

/-! ## 1. Pieces as they are written -/

/-- **How a piece is written.** -/
inductive Piece.Spelled : Piece → List Char → Prop
  | literal (c : Char) : Spelled (.literal c) [c]
  | dollar : Spelled (.literal '$') ['$', '$']
  | name {name : List Char} (h : ∀ c ∈ name, isNameChar c = true) :
      Spelled (.variable name none) ('$' :: name)
  | braced {inside : List Char} (h : '\x7d' ∉ inside) :
      Spelled (Expand.braced inside) ('$' :: '\x7b' :: (inside ++ ['\x7d']))

theorem takeWhile_append_of_dropWhile {p : Char → Bool} {s : List Char} {c : Char} {r : List Char}
    (h : s.dropWhile p = c :: r) : s = s.takeWhile p ++ c :: r ∧ p c = false := by
  refine ⟨by rw [← h, List.takeWhile_append_dropWhile], ?_⟩
  have hhead := List.head?_dropWhile_not p s
  rw [h] at hhead
  simpa using hhead

theorem not_mem_takeWhile (c : Char) (s : List Char) : c ∉ s.takeWhile (· ≠ c) := by
  intro h
  simpa using List.mem_takeWhile_imp h

/-- **The pieces of a text spell the text.** -/
theorem pieces_spelled (s : List Char) :
    ∃ spellings, List.Forall₂ Piece.Spelled (pieces s) spellings ∧ spellings.flatten = s := by
  fun_induction pieces s with
  | case1 => exact ⟨[], .nil, rfl⟩
  | case2 c r hc ih =>
    obtain ⟨spellings, hspelled, hflat⟩ := ih
    exact ⟨[c] :: spellings, .cons (.literal c) hspelled, by simp [hflat]⟩
  | case3 c hc =>
    obtain rfl : c = '$' := by simpa using hc
    exact ⟨[['$']], .cons (.literal '$') .nil, rfl⟩
  | case4 c hc t hopen ih =>
    -- a brace that is not closed
    obtain rfl : c = '$' := by simpa using hc
    obtain ⟨spellings, hspelled, hflat⟩ := ih
    exact ⟨['$'] :: ['\x7b'] :: spellings,
      .cons (.literal '$') (.cons (.literal '\x7b') hspelled), by simp [hflat]⟩
  | case5 c hc t close u hcut ih =>
    obtain rfl : c = '$' := by simpa using hc
    obtain ⟨spellings, hspelled, hflat⟩ := ih
    obtain ⟨hsplit, hclose⟩ := takeWhile_append_of_dropWhile hcut
    obtain rfl : close = '\x7d' := by simpa using hclose
    refine ⟨_ :: spellings, .cons (.braced (not_mem_takeWhile '\x7d' t)) hspelled, ?_⟩
    rw [List.flatten_cons, hflat]
    simpa using hsplit.symm
  | case6 c hc d t hbrace hname ih =>
    obtain rfl : c = '$' := by simpa using hc
    obtain ⟨spellings, hspelled, hflat⟩ := ih
    have hall : ∀ x ∈ d :: t.takeWhile isNameChar, isNameChar x = true :=
      List.forall_mem_cons.mpr ⟨hname, fun _ hx => List.mem_takeWhile_imp hx⟩
    refine ⟨_ :: spellings, .cons (.name hall) hspelled, ?_⟩
    rw [List.flatten_cons, hflat, List.cons_append, List.cons_append,
      List.takeWhile_append_dropWhile]
  | case7 c hc t hbrace hname ih =>
    obtain rfl : c = '$' := by simpa using hc
    obtain ⟨spellings, hspelled, hflat⟩ := ih
    exact ⟨['$', '$'] :: spellings, .cons .dollar hspelled, by simp [hflat]⟩
  | case8 c hc d t hbrace hname hd ih =>
    obtain rfl : c = '$' := by simpa using hc
    obtain ⟨spellings, hspelled, hflat⟩ := ih
    exact ⟨['$'] :: spellings, .cons (.literal '$') hspelled, by simp [hflat]⟩

/-! ## 2. Variables that are named -/

/-- The name that is looked up for a piece. -/
def Piece.name? : Piece → Option String
  | .literal _ => none
  | .variable name _ => some (String.ofList name)

/-- The variables that are looked up for a text. -/
def lookups (raw : String) : List String := (pieces raw.toList).filterMap Piece.name?

/-- **A text names a variable**: the name follows a dollar sign, with or without a brace between. -/
def Named (raw name : String) : Prop :=
  '$' :: name.toList <:+: raw.toList ∨ '$' :: '\x7b' :: name.toList <:+: raw.toList

theorem cutDefault_prefix (s : List Char) : (cutDefault s).1 <+: s := by
  fun_induction cutDefault s with
  | case1 => exact List.prefix_refl _
  | case2 r => exact List.nil_prefix
  | case3 c r _ ih => exact List.cons_prefix_cons.mpr ⟨rfl, ih⟩

theorem name?_braced {inside : List Char} {name : String} (h : (braced inside).name? = some name) :
    name.toList <+: inside := by
  unfold braced at h
  split at h
  · cases h
    exact String.toList_ofList ▸ List.prefix_refl _
  · next found fallback _ hcut =>
    cases h
    rw [String.toList_ofList]
    have hprefix := cutDefault_prefix inside
    rwa [hcut] at hprefix

theorem Piece.Spelled.named {p : Piece} {written : List Char} {name : String}
    (h : p.Spelled written) (hname : p.name? = some name) :
    '$' :: name.toList <+: written ∨ '$' :: '\x7b' :: name.toList <+: written := by
  cases h with
  | literal => cases hname
  | dollar => cases hname
  | name =>
    cases hname
    left
    exact String.toList_ofList ▸ List.prefix_refl _
  | braced =>
    right
    obtain ⟨rest, rfl⟩ := name?_braced hname
    exact ⟨rest ++ ['\x7d'], by simp⟩

/-- **What is looked up for a text is named in it.** -/
theorem named_of_mem_lookups {raw name : String} (h : name ∈ lookups raw) : Named raw name := by
  obtain ⟨p, hp, hname⟩ := List.mem_filterMap.mp h
  obtain ⟨spellings, hspelled, hflat⟩ := pieces_spelled raw.toList
  obtain ⟨i, hi, rfl⟩ := List.getElem_of_mem hp
  have hlength := hspelled.length_eq
  have hwritten : spellings[i] <:+: raw.toList :=
    hflat ▸ List.infix_of_mem_flatten (List.getElem_mem _)
  exact ((hspelled.get hi (hlength ▸ hi)).named hname).imp
    (fun hfront => hfront.isInfix.trans hwritten) (fun hfront => hfront.isInfix.trans hwritten)

/-! ## 3. Parts of an expanded text -/

variable {env env' : Environment}

/-- **What a piece stands for.** -/
inductive Piece.StandsFor (env : Environment) : Piece → List Char → Prop
  | literal (c : Char) : StandsFor env (.literal c) [c]
  | value {name : List Char} {fallback : Option (List Char)} {v : String}
      (h : env.get? (String.ofList name) = some v) :
      StandsFor env (.variable name fallback) v.toList
  | fallback {name text : List Char} (h : env.get? (String.ofList name) = none) :
      StandsFor env (.variable name (some text)) text

theorem Piece.value_eq_ok_iff {p : Piece} {part : List Char} :
    p.value env = .ok part ↔ p.StandsFor env part := by
  constructor
  · intro h
    rcases p with c | ⟨name, fallback⟩
    · cases h
      exact .literal c
    · unfold Piece.value at h
      dsimp only at h
      split at h
      · next v hset =>
        cases h
        exact .value hset
      · next text hunset =>
        cases h
        exact .fallback hunset
      · cases h
  · rintro (_ | hset | hunset)
    · rfl
    · simp only [Piece.value, hset]
    · simp only [Piece.value, hunset]

theorem values_eq_ok_iff {ps : List Piece} {s : List Char} :
    values env ps = .ok s ↔
      ∃ parts, List.Forall₂ (Piece.StandsFor env) ps parts ∧ s = parts.flatten := by
  induction ps generalizing s with
  | nil =>
    constructor
    · intro h
      cases h
      exact ⟨[], .nil, rfl⟩
    · rintro ⟨_, ⟨⟩, rfl⟩
      rfl
  | cons p ps ih =>
    constructor
    · intro h
      unfold values at h
      split at h
      · cases h
      · next v hv =>
        split at h
        · cases h
        · next vs hvs =>
          cases h
          obtain ⟨parts, hparts, rfl⟩ := ih.mp hvs
          exact ⟨v :: parts, .cons (Piece.value_eq_ok_iff.mp hv) hparts, rfl⟩
    · rintro ⟨_, hparts, rfl⟩
      cases hparts with
      | @cons _ v _ parts hv hrest =>
        simp only [values, Piece.value_eq_ok_iff.mpr hv, ih.mpr ⟨parts, hrest, rfl⟩,
          List.flatten_cons]

/-- **What a text is expanded to**: what its pieces stand for, one after the other. A tilde is the
    home directory only if it is the first character that was written, and a whole segment. -/
def Gives (env : Environment) (account : Option String) (raw expanded : String) : Prop :=
  ∃ parts, List.Forall₂ (Piece.StandsFor env) (pieces raw.toList) parts ∧
    expanded.toList =
      if raw.toList.head? = some '~' then tilde (home? env account) parts.flatten
      else parts.flatten

theorem full_eq_ok_iff {account : Option String} {raw expanded : String} :
    full env account raw = .ok expanded ↔ Gives env account raw expanded := by
  unfold full Gives
  constructor
  · intro h
    split at h
    · cases h
    · next s hs =>
      cases h
      obtain ⟨parts, hparts, rfl⟩ := values_eq_ok_iff.mp hs
      exact ⟨parts, hparts, String.toList_ofList⟩
  · rintro ⟨parts, hparts, hexpanded⟩
    rw [values_eq_ok_iff.mpr ⟨parts, hparts, rfl⟩]
    dsimp only
    rw [← hexpanded, String.ofList_toList]

/-! ## 4. Environments that a text cannot tell apart -/

/-- **Two environments are the same to a text**: so are the variables that it names, and the home
    directory if it starts with a tilde. -/
structure SameTo (raw : String) (account : Option String) (env env' : Environment) : Prop where
  lookups : ∀ name ∈ lookups raw, env.get? name = env'.get? name
  home : raw.toList.head? = some '~' → home? env account = home? env' account

theorem values_congr {ps : List Piece}
    (h : ∀ name ∈ ps.filterMap Piece.name?, env.get? name = env'.get? name) :
    values env ps = values env' ps := by
  induction ps with
  | nil => rfl
  | cons p ps ih =>
    rcases p with c | ⟨name, fallback⟩
    · unfold values
      rw [ih h]
      rfl
    · obtain ⟨hname, hrest⟩ := List.forall_mem_cons.mp h
      have hvalue : Piece.value env (.variable name fallback) =
          Piece.value env' (.variable name fallback) := by
        unfold Piece.value
        dsimp only
        rw [hname]
      unfold values
      rw [ih hrest, hvalue]

/-- **A text is expanded alike in both.** -/
theorem full_congr {raw : String} {account : Option String} (h : SameTo raw account env env') :
    full env account raw = full env' account raw := by
  unfold full
  rw [values_congr h.lookups]
  split
  · rfl
  · next s _ =>
    split
    · next htilde => rw [h.home htilde]
    · rfl

end SuiteDriver.Expand

/-!
# Cutting a text at a mark

The parts of a text between the marks in it, and the text that parts and a mark make. Cutting never
loses a part: there is one more than there are marks.

`Path`, `Log` and `Toml/Number` cut with `splitAt`.
-/

namespace SuiteDriver.Text

/-- The parts of a text between the characters `mark`, one more than there are of them. -/
def splitAt (mark : Char) : List Char → List (List Char)
  | [] => [[]]
  | c :: r =>
    if c = mark then [] :: splitAt mark r
    else
      match splitAt mark r with
      | [] => [[c]]
      | p :: ps => (c :: p) :: ps

/-- Parts with the character `mark` between them. -/
def joinWith (mark : Char) : List (List Char) → List Char
  | [] => []
  | [p] => p
  | p :: ps => p ++ mark :: joinWith mark ps

/-- A cut text has a part. -/
theorem splitAt_ne_nil (mark : Char) (s : List Char) : splitAt mark s ≠ [] := by
  cases s with
  | nil => simp [splitAt]
  | cons c r =>
    unfold splitAt
    split
    · simp
    · split <;> simp

/-- Cutting loses nothing: the parts with the mark between them are the text. -/
theorem joinWith_splitAt (mark : Char) (s : List Char) : joinWith mark (splitAt mark s) = s := by
  induction s with
  | nil => rfl
  | cons c r ih =>
    have hr := splitAt_ne_nil mark r
    rw [splitAt]
    cases h : splitAt mark r with
    | nil => exact absurd h hr
    | cons p ps =>
      rw [h] at ih
      split
      · next hc =>
        subst hc
        simp only [joinWith, List.nil_append, ih]
      · cases ps with
        | nil => simpa [joinWith] using ih
        | cons q qs => simpa [joinWith] using ih

/-- A text without the mark is its only part. -/
theorem splitAt_of_not_mem {mark : Char} {s : List Char} (h : mark ∉ s) :
    splitAt mark s = [s] := by
  induction s with
  | nil => rfl
  | cons c r ih =>
    obtain ⟨hc, hr⟩ := not_or.mp (mt List.mem_cons.mpr h)
    rw [splitAt, if_neg (Ne.symm hc), ih hr]

/-- **What stands on both sides of a mark is cut by itself.** -/
theorem splitAt_append (mark : Char) (xs ys : List Char) :
    splitAt mark (xs ++ mark :: ys) = splitAt mark xs ++ splitAt mark ys := by
  induction xs with
  | nil => simp [splitAt]
  | cons c r ih =>
    rw [List.cons_append, splitAt, splitAt, ih]
    split
    · rfl
    · cases h : splitAt mark r with
      | nil => exact absurd h (splitAt_ne_nil mark r)
      | cons p ps => rfl

/-- Parts without the mark are found again. -/
theorem splitAt_joinWith {mark : Char} {ps : List (List Char)} (hne : ps ≠ [])
    (h : ∀ p ∈ ps, mark ∉ p) : splitAt mark (joinWith mark ps) = ps := by
  induction ps with
  | nil => exact absurd rfl hne
  | cons p ps ih =>
    obtain ⟨hp, hps⟩ := List.forall_mem_cons.mp h
    cases ps with
    | nil => exact splitAt_of_not_mem hp
    | cons q qs =>
      rw [joinWith, splitAt_append, splitAt_of_not_mem hp, ih (by simp) hps]
      · rfl
      · simp

/-- A part holds no mark, and every other character of the text is in a part. -/
theorem exists_mem_splitAt_iff {mark c : Char} {s : List Char} :
    (∃ p ∈ splitAt mark s, c ∈ p) ↔ c ∈ s ∧ c ≠ mark := by
  induction s with
  | nil => simp [splitAt]
  | cons d r ih =>
    rw [splitAt]
    split
    · next hd =>
      subst hd
      simp only [List.mem_cons, exists_eq_or_imp, List.not_mem_nil, false_or, ih]
      grind
    · next hd =>
      cases h : splitAt mark r with
      | nil => exact absurd h (splitAt_ne_nil mark r)
      | cons p ps =>
        rw [h] at ih
        simp only [List.mem_cons, exists_eq_or_imp] at ih ⊢
        grind

end SuiteDriver.Text

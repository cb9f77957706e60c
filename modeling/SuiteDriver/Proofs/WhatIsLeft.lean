import SuiteDriver.Proofs.ReadInLine

/-!
# What a reader leaves

Every reader takes characters from the front of a text, so what it leaves is an end of the text. That
holds of texts with flaws too, and of every number of lines. A statement takes at least one character,
so however many statements are allowed for, as long as there is one for each character they are the
same.

* `LeavesEnd`: readers that leave an end of the text;
* `leavesEnd_dottedKey`, `leavesEnd_valueWithin`: keys and values do;
* `Statement.leavesEnd_read`, `Statement.length_lt_of_read`: statements do, and a smaller one;
* `statementsWithin_bound`: the number of statements that are allowed for has no say.
-/

namespace SuiteDriver.Toml

/-! ## 1. What is skipped -/

theorem lineEnd?_suffix {s r : List Char} (h : lineEnd? s = some r) : r <:+ s := by
  unfold lineEnd? at h
  split at h
  · cases h
    exact List.suffix_cons _ _
  · cases h
    exact ⟨['\r', '\n'], rfl⟩
  · cases h

theorem skipLines_suffix (n : Nat) (s : List Char) : skipLines n s <:+ s := by
  induction n generalizing s with
  | zero => exact skipBlanks_suffix s
  | succ n ih =>
    have hskip := (skipComment_suffix (skipBlanks s)).trans (skipBlanks_suffix s)
    rw [skipLines]
    cases hline : lineEnd? (skipComment (skipBlanks s)) with
    | none => exact hskip
    | some r => exact (ih r).trans ((lineEnd?_suffix hline).trans hskip)

theorem skipFiller_suffix (s : List Char) : skipFiller s <:+ s := skipLines_suffix s.length s

theorem finishLine?_suffix {s r : List Char} (h : finishLine? s = some r) : r <:+ s := by
  have hskip := (skipComment_suffix (skipBlanks s)).trans (skipBlanks_suffix s)
  unfold finishLine? at h
  split at h
  · cases h
    exact List.nil_suffix
  · exact (lineEnd?_suffix h).trans hskip

/-! ## 2. Keys -/

/-- **A reader leaves an end of the text**, whether there is a flaw in what it reads or not. -/
def LeavesEnd {α : Type} (r : Reader α) : Prop := ∀ s a rest, r s = some (a, rest) → rest <:+ s

theorem untilMark_suffix (q : Char) (escapes escaped : Bool) (s : List Char) :
    (untilMark q escapes escaped s).2 <:+ s := by
  induction s generalizing escaped with
  | nil => exact List.suffix_refl _
  | cons c s ih =>
    have hcons := List.suffix_cons c s
    unfold untilMark
    split
    · exact List.suffix_refl _
    · split
      · exact (ih false).trans hcons
      · split
        · exact hcons
        · exact (ih _).trans hcons

theorem untilMarks_suffix (q : Char) (escapes : Bool) (closing : Closing) (s : List Char) :
    (untilMarks q escapes closing s).2 <:+ s := by
  induction s generalizing closing with
  | nil =>
    cases closing with
    | escaped => exact List.suffix_refl _
    | run n =>
      unfold untilMarks
      split
      · exact List.suffix_refl _
      · exact List.suffix_refl _
  | cons c s ih =>
    have hcons := List.suffix_cons c s
    cases closing with
    | escaped => exact (ih (.run 0)).trans hcons
    | run n =>
      unfold untilMarks
      split
      · split
        · exact hcons
        · exact (ih _).trans hcons
      · split
        · exact List.suffix_refl _
        · exact (ih _).trans hcons

theorem leavesEnd_quoted : LeavesEnd quoted := by
  intro s p rest h
  cases s with
  | nil => cases h
  | cons a s =>
    have ha := isMark_of_quoted h
    by_cases htriple : ∃ r, s = a :: a :: r
    · obtain ⟨r, rfl⟩ := htriple
      rw [quoted_triple ha] at h
      obtain ⟨-, rfl⟩ := Prod.mk.inj (Option.some.inj h)
      exact (untilMarks_suffix ..).trans ⟨[a, a, a], rfl⟩
    · rw [quoted_of_single ha (not_exists.mp htriple)] at h
      obtain ⟨-, rfl⟩ := Prod.mk.inj (Option.some.inj h)
      exact (untilMark_suffix ..).trans (List.suffix_cons a s)

theorem leavesEnd_keySegment : LeavesEnd keySegment := by
  intro s k rest h
  cases hquoted : quoted s with
  | some found =>
    obtain ⟨p, r⟩ := found
    rw [keySegment_of_quoted hquoted] at h
    obtain ⟨-, rfl⟩ := Prod.mk.inj (Option.some.inj h)
    exact leavesEnd_quoted s p r hquoted
  | none =>
    cases hword : s.takeWhile isWordChar with
    | nil => simp [keySegment, hquoted, hword] at h
    | cons c r =>
      rw [keySegment_of_word hquoted hword] at h
      obtain ⟨-, rfl⟩ := Prod.mk.inj (Option.some.inj h)
      exact List.dropWhile_suffix _

/-- **Segments as they are read**: one alone, or one in front of a point and more of them. -/
theorem segments_cases {n : Nat} {s rest : List Char} {k : Except Flaw (List Key × Key)}
    (h : segments n s = some (k, rest)) :
    (∃ key, keySegment s = some (key, rest) ∧ k = key.map fun last => ([], last)) ∨
      ∃ key r u m more, keySegment s = some (key, r) ∧ skipBlanks r = '.' :: u ∧
        segments m (skipBlanks u) = some (more, rest) ∧ m < n ∧ k = inFront key more := by
  cases n with
  | zero =>
    obtain ⟨⟨key, left⟩, hsegment, heq⟩ := Option.map_eq_some_iff.mp h
    obtain ⟨rfl, rfl⟩ := Prod.mk.inj heq
    exact Or.inl ⟨key, hsegment, rfl⟩
  | succ n =>
    cases hsegment : keySegment s with
    | none => simp [segments, hsegment] at h
    | some found =>
      obtain ⟨key, r⟩ := found
      by_cases hpoint : ∃ u, skipBlanks r = '.' :: u
      · obtain ⟨u, hpoint⟩ := hpoint
        rw [segments_of_point hsegment hpoint] at h
        obtain ⟨⟨more, left⟩, hmore, heq⟩ := Option.map_eq_some_iff.mp h
        obtain ⟨rfl, rfl⟩ := Prod.mk.inj heq
        exact Or.inr ⟨key, r, u, n, more, rfl, hpoint, hmore, Nat.lt_succ_self n, rfl⟩
      · have hlast : (skipBlanks r).head? ≠ some '.' := fun hhead =>
          hpoint ((List.head?_eq_some_iff.mp hhead).imp fun _ hu => hu)
        rw [segments_of_last hsegment hlast] at h
        obtain ⟨rfl, rfl⟩ := Prod.mk.inj (Option.some.inj h)
        exact Or.inl ⟨key, rfl, rfl⟩

/-- What follows a point is an end of the text. -/
theorem suffix_of_point {s r u : List Char} (hr : r <:+ s) (h : skipBlanks r = '.' :: u) :
    skipBlanks u <:+ s :=
  (skipBlanks_suffix u).trans ((List.suffix_cons '.' u).trans
    ((h ▸ skipBlanks_suffix r : '.' :: u <:+ r).trans hr))

theorem leavesEnd_segments (n : Nat) : LeavesEnd (segments n) := by
  induction n using Nat.strongRecOn with
  | ind n ih =>
    intro s k rest h
    rcases segments_cases h with ⟨key, hsegment, -⟩ | ⟨key, r, u, m, more, hsegment, hpoint, hmore,
      hless, -⟩
    · exact leavesEnd_keySegment s key rest hsegment
    · exact (ih m hless _ more rest hmore).trans
        (suffix_of_point (leavesEnd_keySegment s key r hsegment) hpoint)

theorem leavesEnd_dottedKey : LeavesEnd dottedKey := by
  intro s k rest h
  obtain ⟨⟨key, left⟩, hsegments, heq⟩ := Option.map_eq_some_iff.mp h
  obtain ⟨-, rfl⟩ := Prod.mk.inj heq
  exact leavesEnd_segments s.length s key left hsegments

/-! ## 3. Values -/

theorem leavesEnd_textValue : LeavesEnd textValue := by
  intro s v rest h
  obtain ⟨⟨p, left⟩, hquoted, heq⟩ := Option.map_eq_some_iff.mp h
  obtain ⟨-, rfl⟩ := Prod.mk.inj heq
  exact leavesEnd_quoted s p left hquoted

theorem leavesEnd_bareValue : LeavesEnd bareValue := by
  intro s v rest h
  have hsuffix := bareText_suffix s true
  unfold bareValue at h
  split at h
  · cases h
  · next hwritten =>
    obtain ⟨-, rfl⟩ := Prod.mk.inj (Option.some.inj h)
    rwa [hwritten] at hsuffix

section Brackets

variable {item : Reader (Except Flaw Value)}

theorem LeavesEnd.located (hitem : LeavesEnd item) : LeavesEnd (located item) := by
  intro s v rest h
  rw [located_eq] at h
  obtain ⟨⟨w, left⟩, hread, heq⟩ := Option.map_eq_some_iff.mp h
  obtain ⟨-, rfl⟩ := Prod.mk.inj heq
  exact hitem s w left hread

/-- What stands between skipped lines and a mark is an end of the text. -/
theorem suffix_of_skipFiller {s t r : List Char} {c : Char} (ht : t <:+ s)
    (h : skipFiller t = c :: r) : c :: r <:+ s :=
  (h ▸ skipFiller_suffix t : c :: r <:+ t).trans ht

/-- **Items leave an end of the text**, and each is read at an end of it. -/
theorem Items.suffix {α : Type} {close : Char} {r : Reader α} {n : Nat} {s rest : List Char}
    {xs : List α} (hr : LeavesEnd r) (h : Items close r n s xs rest) :
    rest <:+ s ∧ ∀ x ∈ xs, ∃ t u, t <:+ s ∧ r t = some (x, u) := by
  induction h with
  | closed hskip =>
    have hclose := suffix_of_skipFiller (List.suffix_refl _) hskip
    exact ⟨(List.suffix_cons _ _).trans hclose, List.forall_mem_nil _⟩
  | last hskip _ hread hclose =>
    have hstart := suffix_of_skipFiller (List.suffix_refl _) hskip
    have hend := suffix_of_skipFiller ((hr _ _ _ hread).trans hstart) hclose
    exact ⟨(List.suffix_cons _ _).trans hend, List.forall_mem_singleton.mpr ⟨_, _, hstart, hread⟩⟩
  | more hskip _ hread hcomma _ _ ih =>
    have hstart := suffix_of_skipFiller (List.suffix_refl _) hskip
    have hend := suffix_of_skipFiller ((hr _ _ _ hread).trans hstart) hcomma
    have hnext := (List.suffix_cons _ _).trans hend
    refine ⟨ih.1.trans hnext, List.forall_mem_cons.mpr ⟨⟨_, _, hstart, hread⟩, fun x hx => ?_⟩⟩
    obtain ⟨t, u, ht, hread⟩ := ih.2 x hx
    exact ⟨t, u, ht.trans hnext, hread⟩

/-- **An assignment as it is read**: a key, an equals sign and a value. -/
theorem assignment_cases {skip : List Char → List Char} (hskip : ∀ s, skip s <:+ s)
    {s rest : List Char} {x : Except Flaw Assignment} (h : assignment skip item s = some (x, rest)) :
    ∃ key r u v, dottedKey s = some (key, r) ∧ '=' :: u <:+ s ∧ skip u <:+ s ∧
      Toml.located item (skip u) = some (v, rest) ∧ x = Assignment.pair? key v := by
  obtain ⟨key, r, u, hkey, hequals⟩ := exists_of_assignment h
  rw [assignment_of_equals hkey hequals] at h
  obtain ⟨⟨v, left⟩, hvalue, heq⟩ := Option.map_eq_some_iff.mp h
  obtain ⟨rfl, rfl⟩ := Prod.mk.inj heq
  have hmark : '=' :: u <:+ s :=
    (hequals ▸ hskip r : '=' :: u <:+ r).trans (leavesEnd_dottedKey s key r hkey)
  exact ⟨key, r, u, v, hkey, hmark, (hskip u).trans ((List.suffix_cons '=' u).trans hmark), hvalue,
    rfl⟩

theorem LeavesEnd.assignment (hitem : LeavesEnd item) {skip : List Char → List Char}
    (hskip : ∀ s, skip s <:+ s) : LeavesEnd (assignment skip item) := by
  intro s x rest h
  obtain ⟨-, -, u, v, -, -, hu, hvalue, -⟩ := assignment_cases hskip h
  exact (hitem.located _ v rest hvalue).trans hu

/-- **A bracketed value as it is read**: a list of items, or a table of assignments. -/
theorem bracketed_cases {s rest : List Char} {x : Except Flaw Value}
    (h : bracketed item s = some (x, rest)) :
    (∃ r xs, s = '[' :: r ∧ Items ']' (Toml.located item) (r.length + 1) r xs rest ∧
      x = (arrayOf xs).map (.array false)) ∨
    ∃ r xs, s = '\x7b' :: r ∧
      Items '\x7d' (Toml.assignment skipFiller item) (r.length + 1) r xs rest ∧ x = inlineTable xs := by
  cases s with
  | nil => cases h
  | cons c r =>
    by_cases harray : c = '['
    · subst harray
      rw [bracketed_array] at h
      obtain ⟨⟨xs, left⟩, hitems, heq⟩ := Option.map_eq_some_iff.mp h
      obtain ⟨rfl, rfl⟩ := Prod.mk.inj heq
      exact Or.inl ⟨r, xs, rfl, itemsUntil_eq_some_iff.mp hitems, rfl⟩
    · by_cases htable : c = '\x7b'
      · subst htable
        rw [bracketed_table] at h
        obtain ⟨⟨xs, left⟩, hitems, heq⟩ := Option.map_eq_some_iff.mp h
        obtain ⟨rfl, rfl⟩ := Prod.mk.inj heq
        exact Or.inr ⟨r, xs, rfl, itemsUntil_eq_some_iff.mp hitems, rfl⟩
      · rw [bracketed, if_neg harray, if_neg htable] at h
        cases h

theorem LeavesEnd.bracketed (hitem : LeavesEnd item) : LeavesEnd (bracketed item) := by
  intro s x rest h
  rcases bracketed_cases h with ⟨r, xs, rfl, hitems, -⟩ | ⟨r, xs, rfl, hitems, -⟩
  · exact (hitems.suffix hitem.located).1.trans (List.suffix_cons _ r)
  · exact (hitems.suffix (hitem.assignment skipFiller_suffix)).1.trans (List.suffix_cons _ r)

theorem LeavesEnd.orElse {r r' : Reader (Except Flaw Value)} (hr : LeavesEnd r)
    (hr' : LeavesEnd r') : LeavesEnd fun s => (r s).orElse fun _ => r' s := by
  intro s v rest h
  rcases eq_some_of_orElse h with h | h
  · exact hr s v rest h
  · exact hr' s v rest h

end Brackets

/-- **Every value leaves an end of the text**, to whatever depth it nests. -/
theorem leavesEnd_valueWithin (n : Nat) : LeavesEnd (valueWithin n) := by
  have htext := leavesEnd_textValue
  have hbare := leavesEnd_bareValue
  induction n with
  | zero => exact htext.orElse hbare
  | succ n ih => exact htext.orElse (ih.bracketed.orElse hbare)

/-! ## 4. Statements -/

namespace Statement

/-- The key of a header, and the bracket that closes it. -/
theorem headerKey_cases {s rest : List Char} {key : Except Flaw (List Key × Key)}
    (h : headerKey s = some (key, rest)) :
    ∃ r, dottedKey (skipBlanks s) = some (key, r) ∧ skipBlanks r = ']' :: rest := by
  unfold headerKey at h
  split at h
  · cases h
  · next hkey =>
    split at h
    · next hclose =>
      cases h
      exact ⟨_, hkey, hclose⟩
    · cases h

theorem leavesEnd_headerKey : LeavesEnd headerKey := by
  intro s key rest h
  obtain ⟨r, hkey, hclose⟩ := headerKey_cases h
  have hend : ']' :: rest <:+ r := hclose ▸ skipBlanks_suffix r
  exact (List.suffix_cons _ _).trans (hend.trans
    ((leavesEnd_dottedKey _ key r hkey).trans (skipBlanks_suffix s)))

/-- **A statement as it is read**: a header of a table or of a row of tables, or an assignment. -/
theorem read_cases {s rest : List Char} {x : Except Flaw Statement} (h : read s = some (x, rest)) :
    (∃ r key, s = '[' :: '[' :: r ∧ headerKey r = some (key, ']' :: rest) ∧
      x = key.map fun k => .rowHeader k.1 k.2 ⟨s.length, rest.length⟩) ∨
    (∃ r key, s = '[' :: r ∧ headerKey r = some (key, rest) ∧
      x = key.map fun k => .header k.1 k.2 ⟨s.length, rest.length⟩) ∨
    ∃ a, Toml.assignment skipBlanks value s = some (a, rest) ∧
      x = a.map fun a => .assignment a.key.1 a.key.2 a.value := by
  unfold read at h
  split at h
  · split at h
    · next hkey =>
      obtain ⟨rfl, rfl⟩ := Prod.mk.inj (Option.some.inj h)
      exact Or.inl ⟨_, _, rfl, hkey, rfl⟩
    · cases h
  · obtain ⟨⟨key, left⟩, hkey, heq⟩ := Option.map_eq_some_iff.mp h
    obtain ⟨rfl, rfl⟩ := Prod.mk.inj heq
    exact Or.inr (Or.inl ⟨_, key, rfl, hkey, rfl⟩)
  · obtain ⟨⟨a, left⟩, ha, heq⟩ := Option.map_eq_some_iff.mp h
    obtain ⟨rfl, rfl⟩ := Prod.mk.inj heq
    exact Or.inr (Or.inr ⟨a, ha, rfl⟩)

theorem leavesEnd_read : LeavesEnd read := by
  intro s x rest h
  rcases read_cases h with ⟨r, key, rfl, hkey, -⟩ | ⟨r, key, rfl, hkey, -⟩ | ⟨a, ha, -⟩
  · exact (List.suffix_cons ']' rest).trans ((leavesEnd_headerKey r key _ hkey).trans ⟨['[', '['], rfl⟩)
  · exact (leavesEnd_headerKey r key rest hkey).trans (List.suffix_cons _ r)
  · exact (leavesEnd_valueWithin deepest).assignment skipBlanks_suffix s a rest ha

/-- **A statement takes a character**: its bracket, or its equals sign. -/
theorem length_lt_of_read {s rest : List Char} {x : Except Flaw Statement}
    (h : read s = some (x, rest)) : rest.length < s.length := by
  rcases read_cases h with ⟨r, key, rfl, hkey, -⟩ | ⟨r, key, rfl, hkey, -⟩ | ⟨a, ha, -⟩
  · have hle := (leavesEnd_headerKey r key _ hkey).length_le
    simp only [List.length_cons] at hle ⊢
    omega
  · have hle := (leavesEnd_headerKey r key rest hkey).length_le
    simp only [List.length_cons]
    omega
  · obtain ⟨-, -, u, v, -, hmark, -, hvalue, -⟩ := assignment_cases skipBlanks_suffix ha
    have hless := hmark.length_le
    have hvalue := ((leavesEnd_valueWithin deepest).located _ v rest hvalue).length_le
    have hskip := (skipBlanks_suffix u).length_le
    rw [List.length_cons] at hless
    omega

end Statement

/-- **However many statements are allowed for**, as long as there is one for each character. -/
theorem statementsWithin_bound {n m : Nat} {s : List Char} (hn : s.length < n) (hm : s.length < m) :
    statementsWithin n s = statementsWithin m s := by
  induction n generalizing m s with
  | zero => exact absurd hn (Nat.not_lt_zero _)
  | succ n ih =>
    obtain ⟨m, rfl⟩ : ∃ k, m = k + 1 := ⟨m - 1, by omega⟩
    rw [statementsWithin, statementsWithin]
    have hskip := (skipFiller_suffix s).length_le
    split
    · rfl
    · split
      · rfl
      · next hread =>
        have hless := Statement.length_lt_of_read hread
        split
        · rfl
        · next hfinish =>
          have hle := (finishLine?_suffix hfinish).length_le
          rw [ih (m := m) (by omega) (by omega)]

end SuiteDriver.Toml

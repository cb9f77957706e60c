import Mathlib.Data.List.TakeWhile
import SuiteDriver.Proofs.MovedSpans
import SuiteDriver.Proofs.WrittenLines

/-!
# Values that are read in their line

A value that is read from a text of one line is read from any longer text as well, if nothing but
the end of a line follows: a reader never looks further than that. What follows moves the spans of
the value, as they count from the end of the text, and does nothing else. And no span reaches beyond
the text that the value is read from.

* `EndsLine`: what may follow a value on its line;
* `ReadsOn`, `IsStable`: readings that go on alike, and readers that give no others;
* `isStable_keySegment`, `isStable_dottedKey`: keys;
* `isStable_valueWithin`: values, whatever is nested in them;
* `valueWithin_nestedLists_eq_none`: what nests deeper than levels are left is no value.
-/

namespace SuiteDriver.Toml

/-! ## 1. Lines -/

/-- A text of one line. -/
def IsOneLine (s : List Char) : Prop := ∀ c ∈ s, c ≠ '\n' ∧ c ≠ '\r'

instance (s : List Char) : Decidable (IsOneLine s) := List.decidableBAll _ s

theorem IsOneLine.of_suffix {s t : List Char} (h : IsOneLine s) (ht : t <:+ s) : IsOneLine t :=
  fun c hc => h c (ht.subset hc)

/-- **What may follow on a line**: blanks, and then a comment or the end of the line. -/
def EndsLine (t : List Char) : Prop :=
  ∀ c, (skipBlanks t).head? = some c → c = '#' ∨ c = '\n' ∨ c = '\r'

namespace EndsLine

variable {t : List Char} {c : Char}

theorem head?_cases (h : EndsLine t) (hc : t.head? = some c) :
    isBlank c = true ∨ c = '#' ∨ c = '\n' ∨ c = '\r' := by
  cases hblank : isBlank c with
  | true => exact Or.inl rfl
  | false =>
    obtain ⟨r, rfl⟩ := List.head?_eq_some_iff.mp hc
    refine Or.inr (h c ?_)
    unfold skipBlanks
    rw [List.dropWhile_cons_of_neg (by simp [hblank])]
    rfl

theorem tail {r : List Char} (h : EndsLine (c :: r)) (hc : isBlank c = true) : EndsLine r := by
  unfold EndsLine skipBlanks at h
  rwa [List.dropWhile_cons_of_pos hc] at h

/-- Nothing that goes on with a word, a quoted text or a key stands there. -/
theorem head?_apart (h : EndsLine t) (hc : t.head? = some c) :
    isWordChar c = false ∧ isMark c = false ∧ c ≠ '.' := by
  rcases h.head?_cases hc with hblank | rfl | rfl | rfl
  · have hcases : c = ' ' ∨ c = '\t' := by simpa [isBlank] using hblank
    rcases hcases with rfl | rfl <;> decide
  · decide
  · decide
  · decide

end EndsLine

theorem skipBlanks_suffix (s : List Char) : skipBlanks s <:+ s := List.dropWhile_suffix _

/-- Blanks end in a text, or go on in what follows it. -/
theorem skipBlanks_append_eq (s t : List Char) :
    skipBlanks (s ++ t) = if skipBlanks s = [] then skipBlanks t else skipBlanks s ++ t := by
  unfold skipBlanks
  rw [List.dropWhile_append]
  simp only [List.isEmpty_iff]

theorem lineEnd?_of_isOneLine {s : List Char} (hs : IsOneLine s) : lineEnd? s = none := by
  unfold lineEnd?
  split
  · exact absurd rfl (hs '\n' List.mem_cons_self).1
  · exact absurd rfl (hs '\r' List.mem_cons_self).2
  · rfl

theorem skipComment_suffix (s : List Char) : skipComment s <:+ s := by
  unfold skipComment
  split
  · exact (List.dropWhile_suffix _).trans (List.suffix_cons _ _)
  · exact List.suffix_refl _

/-- In a text of one line no line is skipped as a whole. -/
theorem skipFiller_of_isOneLine {s : List Char} (hs : IsOneLine s) :
    skipFiller s = skipComment (skipBlanks s) := by
  have hsuffix := (skipComment_suffix (skipBlanks s)).trans (skipBlanks_suffix s)
  rw [skipFiller_eq, lineEnd?_of_isOneLine (hs.of_suffix hsuffix)]

/-- **What is skipped in front of something does not depend on what follows it.** -/
theorem skipFiller_append {s : List Char} (hs : IsOneLine s) {c : Char} {r : List Char}
    (h : skipFiller s = c :: r) :
    c :: r <:+ s ∧ ∀ t, skipFiller (s ++ t) = c :: r ++ t := by
  rw [skipFiller_of_isOneLine hs] at h
  have hsuffix : c :: r <:+ s :=
    h ▸ (skipComment_suffix (skipBlanks s)).trans (skipBlanks_suffix s)
  refine ⟨hsuffix, fun t => ?_⟩
  have hskip : skipComment (skipBlanks (s ++ t)) = c :: r ++ t := by
    have hne : skipBlanks s ≠ [] := by
      intro hnil
      rw [hnil] at h
      cases h
    rw [skipBlanks_append_eq, if_neg hne]
    unfold skipComment at h ⊢
    split at h
    · next u hcomment =>
      -- a comment that does not reach to the end stops at a character that may not stand in it
      rw [hcomment, List.cons_append]
      show (u ++ t).dropWhile isPrintable = _
      have hne' : u.dropWhile isPrintable ≠ [] := by simp [h]
      rw [List.dropWhile_append, if_neg (by simpa using hne'), h]
    · next hno =>
      rw [h] at hno ⊢
      split
      · next u heq =>
        obtain ⟨rfl, -⟩ := List.cons.inj heq
        exact absurd rfl (hno r)
      · rfl
  have hline : lineEnd? (c :: r ++ t) = none := by
    obtain ⟨hfeed, hreturn⟩ := hs c (hsuffix.subset List.mem_cons_self)
    rw [List.cons_append]
    unfold lineEnd?
    split
    · next heq => exact absurd (List.cons.inj heq).1 hfeed
    · next heq => exact absurd (List.cons.inj heq).1 hreturn
    · rfl
  rw [skipFiller_eq, hskip, hline]

/-- What a walk takes from a text, and where it stops, is the same if it stops at what follows. -/
theorem walk_append {p : Char → Bool} (s : List Char) {t : List Char}
    (ht : ∀ c, t.head? = some c → p c = false) :
    (s ++ t).takeWhile p = s.takeWhile p ∧ (s ++ t).dropWhile p = s.dropWhile p ++ t := by
  induction s with
  | nil =>
    cases t with
    | nil => exact ⟨rfl, rfl⟩
    | cons c t => simp [ht c rfl]
  | cons c s ih =>
    rw [List.cons_append]
    cases hc : p c with
    | true => simp [hc, ih.1, ih.2]
    | false => simp [hc]

/-! ## 2. Readings that go on alike -/

/-- A span with `k` more characters after it. -/
def Span.moved (k : Nat) (span : Span) : Span := ⟨span.start + k, span.stop + k⟩

/-- A span that is cut off where only `n` characters are left. -/
def Span.cut (n : Nat) (span : Span) : Span := ⟨min span.start n, span.stop⟩

/-- **A reading that goes on alike**: with the end of a line after the text the reader gives the
    same, at spans that lie in the text and are moved with it. -/
structure ReadsOn {α : Type} [HasSpans α] (r : Reader (Except Flaw α)) (s : List Char) (a : α)
    (rest : List Char) : Prop where
  suffix : rest <:+ s
  within : HasSpans.mapSpans (Span.cut s.length) a = a
  append : ∀ t, EndsLine t →
    r (s ++ t) = some (.ok (HasSpans.mapSpans (Span.moved t.length) a), rest ++ t)

/-- **A reader that never looks beyond a line**, and finds nothing in the empty text. -/
structure IsStable {α : Type} [HasSpans α] (r : Reader (Except Flaw α)) : Prop where
  nil : r [] = none
  reads : ∀ s a rest, IsOneLine s → r s = some (.ok a, rest) → ReadsOn r s a rest

/-- What lies in a part of a text lies in the text. -/
theorem within_of_le {α : Type} [HasSpans α] {a : α} {m n : Nat}
    (h : HasSpans.mapSpans (Span.cut m) a = a) (hle : m ≤ n) :
    HasSpans.mapSpans (Span.cut n) a = a := by
  have hcut : Span.cut n ∘ Span.cut m = Span.cut m := by
    funext span
    simp only [Function.comp_apply, Span.cut, Span.mk.injEq, and_true]
    omega
  rw [← h, HasSpans.mapSpans_mapSpans, hcut]

/-! ## 3. Quoted text -/

theorem prepend_eq_some {front x rest : List Char} {p : Option (List Char) × List Char}
    (h : prepend front p = (some x, rest)) : ∃ y, p = (some y, rest) ∧ x = front ++ y := by
  obtain ⟨content, left⟩ := p
  cases content with
  | none => cases h
  | some y =>
    cases h
    exact ⟨y, rfl, rfl⟩

theorem untilMark_append {q : Char} {escapes escaped : Bool} {s x rest : List Char}
    (h : untilMark q escapes escaped s = (some x, rest)) :
    rest <:+ s ∧ ∀ t, untilMark q escapes escaped (s ++ t) = (some x, rest ++ t) := by
  induction s generalizing escaped x with
  | nil => cases h
  | cons c s ih =>
    unfold untilMark at h
    simp only [List.cons_append, untilMark]
    split at h
    · cases h
    · next hfeed =>
      simp only [if_neg hfeed]
      split at h
      · next hescaped =>
        obtain ⟨y, hy, rfl⟩ := prepend_eq_some h
        obtain ⟨hsuffix, happend⟩ := ih hy
        refine ⟨hsuffix.trans (List.suffix_cons c s), fun t => ?_⟩
        rw [if_pos hescaped, happend t]
        rfl
      · next hescaped =>
        simp only [if_neg hescaped]
        split at h
        · next hclose =>
          cases h
          exact ⟨List.suffix_cons c _, fun t => by rw [if_pos hclose]⟩
        · next hclose =>
          obtain ⟨y, hy, rfl⟩ := prepend_eq_some h
          obtain ⟨hsuffix, happend⟩ := ih hy
          refine ⟨hsuffix.trans (List.suffix_cons c s), fun t => ?_⟩
          rw [if_neg hclose, happend t]
          rfl

/-- A run of closing marks at the end of a text goes on only if a mark follows. -/
theorem untilMarks_append {q : Char} {escapes : Bool} {closing : Closing} {s x rest : List Char}
    (h : untilMarks q escapes closing s = (some x, rest)) :
    rest <:+ s ∧ ∀ t : List Char, (∀ c, t.head? = some c → c ≠ q) →
      untilMarks q escapes closing (s ++ t) = (some x, rest ++ t) := by
  induction s generalizing closing x with
  | nil =>
    cases closing with
    | escaped => cases h
    | run n =>
      rw [untilMarks] at h
      split at h
      · next hthree =>
        cases h
        refine ⟨List.suffix_refl _, fun t ht => ?_⟩
        cases t with
        | nil => rw [List.append_nil, untilMarks, if_pos hthree]
        | cons c t => rw [List.nil_append, untilMarks, if_neg (ht c rfl), if_pos hthree]
      · cases h
  | cons c s ih =>
    have hcons := List.suffix_cons c s
    cases closing with
    | escaped =>
      rw [untilMarks] at h
      obtain ⟨y, hy, rfl⟩ := prepend_eq_some h
      obtain ⟨hsuffix, happend⟩ := ih hy
      refine ⟨hsuffix.trans hcons, fun t ht => ?_⟩
      rw [List.cons_append, untilMarks, happend t ht]
      rfl
    | run n =>
      simp only [List.cons_append]
      simp only [untilMarks] at h ⊢
      split at h
      · next hc =>
        simp only [if_pos hc]
        split at h
        · next hfour =>
          cases h
          exact ⟨hcons, fun t _ => by rw [if_pos hfour]⟩
        · next hfour =>
          obtain ⟨hsuffix, happend⟩ := ih h
          exact ⟨hsuffix.trans hcons, fun t ht => by rw [if_neg hfour, happend t ht]⟩
      · next hc =>
        simp only [if_neg hc]
        split at h
        · next hthree =>
          cases h
          exact ⟨List.suffix_refl _, fun t _ => by rw [if_pos hthree]; rfl⟩
        · next hthree =>
          obtain ⟨y, hy, rfl⟩ := prepend_eq_some h
          obtain ⟨hsuffix, happend⟩ := ih hy
          refine ⟨hsuffix.trans hcons, fun t ht => ?_⟩
          rw [if_neg hthree, happend t ht]
          rfl

theorem isMark_of_quoted {c : Char} {r : List Char} {p : Quoted × List Char}
    (h : quoted (c :: r) = some p) : isMark c = true := by
  cases hc : isMark c with
  | true => rfl
  | false =>
    rw [quoted_of_not_isMark hc] at h
    cases h

theorem quoted_triple {a : Char} (ha : isMark a = true) (r : List Char) :
    quoted (a :: a :: a :: r) =
      some (⟨true, a = doubleQuote, (untilMarks a (a = doubleQuote) (.run 0) r).1⟩,
        (untilMarks a (a = doubleQuote) (.run 0) r).2) := by
  simp [quoted, ha]

theorem exists_quoted_of_isMark {c : Char} (h : isMark c = true) (s : List Char) :
    ∃ p, quoted (c :: s) = some p := by
  by_cases htriple : ∃ r, s = c :: c :: r
  · obtain ⟨r, rfl⟩ := htriple
    exact ⟨_, quoted_triple h r⟩
  · exact ⟨_, quoted_of_single h (not_exists.mp htriple)⟩

/-- **A quoted text that is closed is cut alike**, if no further mark follows. -/
theorem quoted_append {s rest : List Char} {p : Quoted} (h : quoted s = some (p, rest))
    (hclosed : p.content.isSome = true) :
    rest <:+ s ∧ ∀ t, EndsLine t → quoted (s ++ t) = some (p, rest ++ t) := by
  cases s with
  | nil => cases h
  | cons a s =>
    have ha := isMark_of_quoted h
    have hcons := List.suffix_cons a s
    by_cases htriple : ∃ r, s = a :: a :: r
    · obtain ⟨r, rfl⟩ := htriple
      rw [quoted_triple ha] at h
      obtain ⟨rfl, rfl⟩ := Prod.mk.inj (Option.some.inj h)
      obtain ⟨x, hx⟩ := Option.isSome_iff_exists.mp hclosed
      obtain ⟨hsuffix, happend⟩ := untilMarks_append (Prod.ext hx rfl)
      refine ⟨hsuffix.trans ⟨[a, a, a], rfl⟩, fun t ht => ?_⟩
      have hmark : ∀ c, t.head? = some c → c ≠ a := by
        rintro c hc rfl
        simp [(ht.head?_apart hc).2.1] at ha
      simp only [List.cons_append]
      rw [quoted_triple ha, happend t hmark, ← hx]
    · have hsingle : ∀ r, s ≠ a :: a :: r := not_exists.mp htriple
      rw [quoted_of_single ha hsingle] at h
      obtain ⟨rfl, rfl⟩ := Prod.mk.inj (Option.some.inj h)
      obtain ⟨x, hx⟩ := Option.isSome_iff_exists.mp hclosed
      obtain ⟨hsuffix, happend⟩ := untilMark_append (Prod.ext hx rfl)
      refine ⟨hsuffix.trans hcons, fun t ht => ?_⟩
      have hsingle' : ∀ r, s ++ t ≠ a :: a :: r := by
        intro r hr
        rcases s with _ | ⟨b, _ | ⟨c, s⟩⟩
        · cases hx
        · -- a mark that follows would make the second of three the third
          rw [List.cons_append, List.nil_append, List.cons.injEq] at hr
          simp [(ht.head?_apart (c := a) (by simp [hr.2])).2.1] at ha
        · simp only [List.cons_append, List.cons.injEq] at hr
          exact hsingle s (by rw [hr.1, hr.2.1])
      rw [List.cons_append, quoted_of_single ha hsingle', happend t, ← hx]

/-! ## 4. Keys -/

/-- A name that a segment is read to was closed, if it is quoted. -/
theorem isSome_content_of_quotedName? {p : Quoted} {name : List Char}
    (h : quotedName? p = some name) : p.content.isSome = true := by
  unfold quotedName? at h
  split at h
  · cases h
  · unfold Quoted.text? at h
    obtain ⟨content, hcontent, -⟩ := Option.bind_eq_some_iff.mp h
    simp [hcontent]

theorem keySegment_of_quoted {s r : List Char} {p : Quoted} (h : quoted s = some (p, r)) :
    keySegment s = some ((orMalformed (quotedName? p)).map fun name =>
      ⟨String.ofList name, ⟨s.length, r.length⟩⟩, r) := by
  unfold keySegment
  simp only [h]

theorem keySegment_of_word {s : List Char} (hquoted : quoted s = none) {c : Char} {r : List Char}
    (h : s.takeWhile isWordChar = c :: r) :
    keySegment s = some ((orMalformed (if (c :: r).all isBareKey then some (c :: r) else none)).map
      fun name => ⟨String.ofList name, ⟨s.length, (s.dropWhile isWordChar).length⟩⟩,
      s.dropWhile isWordChar) := by
  unfold keySegment
  simp only [hquoted, h]

theorem quoted_append_eq_none {s : List Char} (hs : s ≠ []) (h : quoted s = none) (t : List Char) :
    quoted (s ++ t) = none := by
  obtain ⟨c, s, rfl⟩ := List.exists_cons_of_ne_nil hs
  cases hc : isMark c with
  | false => exact quoted_of_not_isMark hc _
  | true =>
    obtain ⟨p, hp⟩ := exists_quoted_of_isMark hc s
    rw [h] at hp
    cases hp

theorem isStable_keySegment : IsStable keySegment := by
  refine ⟨rfl, fun s k rest _ h => ?_⟩
  have hspan (name : String) (r : List Char) (n : Nat) (hn : n = s.length) :
      HasSpans.mapSpans (Span.cut n) (⟨name, ⟨s.length, r.length⟩⟩ : Key) =
        ⟨name, ⟨s.length, r.length⟩⟩ := by
    simp [HasSpans.mapSpans, Key.mapSpan, Span.cut, hn]
  cases hquoted : quoted s with
  | some found =>
    obtain ⟨p, r⟩ := found
    rw [keySegment_of_quoted hquoted] at h
    obtain ⟨hkey, rfl⟩ := Prod.mk.inj (Option.some.inj h)
    obtain ⟨name, hname, rfl⟩ := map_eq_ok_iff.mp hkey
    have hclosed := isSome_content_of_quotedName? (orMalformed_eq_ok_iff.mp hname)
    obtain ⟨hsuffix, happend⟩ := quoted_append hquoted hclosed
    refine ⟨hsuffix, hspan _ r _ rfl, fun t ht => ?_⟩
    rw [keySegment_of_quoted (happend t ht), hname]
    simp [Except.map, HasSpans.mapSpans, Key.mapSpan, Span.moved]
  | none =>
    cases hword : s.takeWhile isWordChar with
    | nil => simp [keySegment, hquoted, hword] at h
    | cons c r =>
      rw [keySegment_of_word hquoted hword] at h
      obtain ⟨hkey, rfl⟩ := Prod.mk.inj (Option.some.inj h)
      obtain ⟨name, hname, rfl⟩ := map_eq_ok_iff.mp hkey
      have hne : s ≠ [] := by
        rintro rfl
        cases hword
      refine ⟨List.dropWhile_suffix _, hspan _ _ _ rfl, fun t ht => ?_⟩
      obtain ⟨htake, hdrop⟩ := walk_append s fun c hc => (ht.head?_apart hc).1
      rw [keySegment_of_word (quoted_append_eq_none hne hquoted t) (htake.trans hword), hdrop,
        hname]
      simp [Except.map, HasSpans.mapSpans, Key.mapSpan, Span.moved]

theorem segments_nil (n : Nat) : segments n [] = none := by
  cases n <;> rfl

theorem segments_of_point {s r u : List Char} {key : Except Flaw Key}
    (h : keySegment s = some (key, r)) (hpoint : skipBlanks r = '.' :: u) (n : Nat) :
    segments (n + 1) s = (segments n (skipBlanks u)).map fun p => (inFront key p.1, p.2) := by
  simp only [segments, h, hpoint]

theorem segments_of_last {s r : List Char} {key : Except Flaw Key} (h : keySegment s = some (key, r))
    (hpoint : (skipBlanks r).head? ≠ some '.') (n : Nat) :
    segments (n + 1) s = some (key.map fun k => ([], k), r) := by
  simp only [segments, h]
  split
  · next heq => simp [heq] at hpoint
  · rfl

theorem inFront_eq_ok {key : Except Flaw Key} {more : Except Flaw (List Key × Key)}
    {k : List Key × Key} (h : inFront key more = .ok k) :
    ∃ first path last, key = .ok first ∧ more = .ok (path, last) ∧ k = (first :: path, last) := by
  unfold inFront at h
  split at h
  · next first path last =>
    cases h
    exact ⟨first, path, last, rfl, rfl, rfl⟩
  · cases h
  · cases h

/-- **Segments are read alike** with every bound that is not below the length of the text. -/
theorem segments_append {n : Nat} {s rest : List Char} {k : List Key × Key} (hs : IsOneLine s)
    (hn : s.length ≤ n) (h : segments n s = some (.ok k, rest)) :
    rest <:+ s ∧ HasSpans.mapSpans (Span.cut s.length) k = k ∧
      ∀ t m, EndsLine t → (s ++ t).length ≤ m →
        segments m (s ++ t) = some (.ok (HasSpans.mapSpans (Span.moved t.length) k), rest ++ t) := by
  induction n generalizing s k with
  | zero =>
    obtain rfl := List.eq_nil_of_length_eq_zero (Nat.le_zero.mp hn)
    cases h
  | succ n ih =>
    cases hsegment : keySegment s with
    | none => simp [segments, hsegment] at h
    | some found =>
      obtain ⟨key, r⟩ := found
      have hbound (t : List Char) (m : Nat) (hm : (s ++ t).length ≤ m) : ∃ m', m = m' + 1 := by
        have hne : s ≠ [] := by
          rintro rfl
          cases hsegment
        have hlength := List.length_pos_iff.mpr hne
        rw [List.length_append] at hm
        exact ⟨m - 1, by omega⟩
      by_cases hpoint : ∃ u, skipBlanks r = '.' :: u
      · obtain ⟨u, hpoint⟩ := hpoint
        rw [segments_of_point hsegment hpoint] at h
        obtain ⟨⟨more, left⟩, hmore, heq⟩ := Option.map_eq_some_iff.mp h
        obtain ⟨hfront, rfl⟩ := Prod.mk.inj heq
        obtain ⟨first, path, last, rfl, rfl, rfl⟩ := inFront_eq_ok hfront
        obtain ⟨hsuffix, hwithin, happend⟩ := isStable_keySegment.reads s first r hs hsegment
        have hnext : '.' :: u <:+ s := hpoint ▸ (skipBlanks_suffix r).trans hsuffix
        have hskip : skipBlanks u <:+ s :=
          (skipBlanks_suffix u).trans ((List.suffix_cons '.' u).trans hnext)
        have hshort : (skipBlanks u).length ≤ n := by
          have hless := hnext.length_le
          have hle := (skipBlanks_suffix u).length_le
          rw [List.length_cons] at hless
          omega
        obtain ⟨hleft, hin, hall⟩ := ih (hs.of_suffix hskip) hshort hmore
        have hin := within_of_le hin hskip.length_le
        refine ⟨hleft.trans hskip, ?_, fun t m ht hm => ?_⟩
        · simp only [HasSpans.mapSpans, mapPath, List.map_cons, Prod.mk.injEq] at hwithin hin ⊢
          exact ⟨by rw [hwithin, hin.1], hin.2⟩
        · obtain ⟨m, rfl⟩ := hbound t m hm
          have hpoint' : skipBlanks (r ++ t) = '.' :: (u ++ t) := by
            rw [skipBlanks_append_eq, if_neg (by simp [hpoint]), hpoint, List.cons_append]
          have hskip' : skipBlanks (u ++ t) = skipBlanks u ++ t := by
            rw [skipBlanks_append_eq, if_neg]
            intro hnil
            rw [hnil, segments_nil] at hmore
            cases hmore
          have hm' : (skipBlanks u ++ t).length ≤ m := by
            have hless := hnext.length_le
            have hle := (skipBlanks_suffix u).length_le
            simp only [List.length_append, List.length_cons] at hm hless ⊢
            omega
          rw [segments_of_point (happend t ht) hpoint', hskip', hall t m ht hm']
          rfl
      · have hlast : (skipBlanks r).head? ≠ some '.' := by
          intro hhead
          obtain ⟨u, hu⟩ := List.head?_eq_some_iff.mp hhead
          exact hpoint ⟨u, hu⟩
        rw [segments_of_last hsegment hlast] at h
        obtain ⟨hkey, rfl⟩ := Prod.mk.inj (Option.some.inj h)
        obtain ⟨last, rfl, rfl⟩ := map_eq_ok_iff.mp hkey
        obtain ⟨hsuffix, hwithin, happend⟩ := isStable_keySegment.reads s last r hs hsegment
        refine ⟨hsuffix, congrArg (Prod.mk []) hwithin, fun t m ht hm => ?_⟩
        obtain ⟨m, rfl⟩ := hbound t m hm
        have hlast' : (skipBlanks (r ++ t)).head? ≠ some '.' := by
          rw [skipBlanks_append_eq]
          split
          · intro hhead
            rcases ht '.' hhead with hc | hc | hc <;> cases hc
          · next hne =>
            obtain ⟨c, u, hu⟩ := List.exists_cons_of_ne_nil hne
            rw [hu] at hlast ⊢
            exact hlast
        rw [segments_of_last (happend t ht) hlast']
        rfl

theorem isStable_dottedKey : IsStable dottedKey := by
  refine ⟨rfl, fun s k rest hs h => ?_⟩
  obtain ⟨⟨key, left⟩, hsegments, heq⟩ := Option.map_eq_some_iff.mp h
  obtain ⟨hkey, rfl⟩ := Prod.mk.inj heq
  cases key with
  | error e => cases hkey
  | ok key =>
    have hdepth : ¬ deepest ≤ key.1.length := by
      intro hdeep
      simp [Except.bind, checkDepth, hdeep] at hkey
    obtain rfl : key = k := by simpa [Except.bind, checkDepth, hdepth] using hkey
    obtain ⟨hsuffix, hwithin, happend⟩ := segments_append hs (Nat.le_refl _) hsegments
    refine ⟨hsuffix, hwithin, fun t ht => ?_⟩
    unfold dottedKey
    rw [happend t _ ht (Nat.le_refl _)]
    simp [Except.bind, checkDepth, HasSpans.mapSpans, mapPath, hdepth]

/-! ## 5. Values without brackets -/

theorem mapSpans_of_isAtom {v : Value} (h : v.isAtom = true) (f : Span → Span) :
    v.mapSpans f = v := by
  cases v with
  | text | integer | float | boolean | moment => rfl
  | array => cases h
  | table => cases h

theorem isStable_textValue : IsStable textValue := by
  refine ⟨rfl, fun s v rest _ h => ?_⟩
  obtain ⟨⟨p, left⟩, hquoted, heq⟩ := Option.map_eq_some_iff.mp h
  obtain ⟨hvalue, rfl⟩ := Prod.mk.inj heq
  obtain ⟨text, htext, rfl⟩ := Option.map_eq_some_iff.mp (orMalformed_eq_ok_iff.mp hvalue)
  have hclosed : p.content.isSome = true := by
    obtain ⟨content, hcontent, -⟩ := Option.bind_eq_some_iff.mp htext
    exact Option.isSome_iff_exists.mpr ⟨content, hcontent⟩
  obtain ⟨hsuffix, happend⟩ := quoted_append hquoted hclosed
  refine ⟨hsuffix, rfl, fun t ht => ?_⟩
  unfold textValue
  rw [happend t ht, Option.map_some, htext]
  rfl

theorem bareText_of_endsLine {t : List Char} (ht : EndsLine t) (atStart : Bool) :
    bareText atStart t = ([], t) := by
  induction t generalizing atStart with
  | nil => rfl
  | cons c t ih =>
    unfold bareText
    split
    · next hblank =>
      rw [ih (ht.tail hblank)]
      rfl
    · next hblank =>
      obtain ⟨hword, -, hpoint⟩ := ht.head?_apart (c := c) rfl
      rw [if_pos (by simp [isBareValue, hword, hpoint])]

/-- A value without quotes ends where it ends alone. -/
theorem bareText_append (s : List Char) (atStart : Bool) {t : List Char} (ht : EndsLine t) :
    bareText atStart (s ++ t) = ((bareText atStart s).1, (bareText atStart s).2 ++ t) := by
  induction s generalizing atStart with
  | nil => exact bareText_of_endsLine ht atStart
  | cons c s ih =>
    simp only [List.cons_append, bareText, ih]
    split
    · split
      · rfl
      · rfl
    · split
      · rfl
      · rfl

theorem bareText_suffix (s : List Char) (atStart : Bool) : (bareText atStart s).2 <:+ s := by
  induction s generalizing atStart with
  | nil => exact List.suffix_refl _
  | cons c s ih =>
    have hcons := List.suffix_cons c s
    unfold bareText
    split
    · dsimp only
      split
      · exact List.suffix_refl _
      · exact (ih true).trans hcons
    · split
      · exact List.suffix_refl _
      · exact (ih _).trans hcons

theorem isStable_bareValue : IsStable bareValue := by
  refine ⟨rfl, fun s v rest _ h => ?_⟩
  have hsuffix := bareText_suffix s true
  unfold bareValue at h
  split at h
  · cases h
  · next written left hne hwritten =>
    obtain ⟨hvalue, rfl⟩ := Prod.mk.inj (Option.some.inj h)
    have hbare := orMalformed_eq_ok_iff.mp hvalue
    have hatom := all_isAtom_bareValue? written
    rw [hbare] at hatom
    rw [hwritten] at hsuffix
    refine ⟨hsuffix, mapSpans_of_isAtom hatom _, fun t ht => ?_⟩
    unfold bareValue
    rw [bareText_append s true ht, hwritten]
    split
    · next heq => exact absurd (Prod.mk.inj heq).1 hne
    · next heq =>
      obtain ⟨rfl, rfl⟩ := Prod.mk.inj heq
      rw [hvalue, show HasSpans.mapSpans _ v = v from mapSpans_of_isAtom hatom _]

/-! ## 6. Bracketed values -/

/-- **Items as they are read**, one after the other. -/
inductive Items {α : Type} (close : Char) (item : Reader α) :
    Nat → List Char → List α → List Char → Prop
  | closed {n : Nat} {s r : List Char} (h : skipFiller s = close :: r) :
      Items close item (n + 1) s [] r
  | last {n : Nat} {s r t u : List Char} {c : Char} {a : α} (h : skipFiller s = c :: r)
      (hc : c ≠ close) (hitem : item (c :: r) = some (a, t)) (hclose : skipFiller t = close :: u) :
      Items close item (n + 1) s [a] u
  | more {n : Nat} {s r t u rest : List Char} {c : Char} {a : α} {as : List α}
      (h : skipFiller s = c :: r) (hc : c ≠ close) (hitem : item (c :: r) = some (a, t))
      (hcomma : skipFiller t = ',' :: u) (hclose : ',' ≠ close) (hmore : Items close item n u as rest) :
      Items close item (n + 1) s (a :: as) rest

theorem itemsUntil_eq_some_iff {α : Type} {close : Char} {item : Reader α} {n : Nat}
    {s rest : List Char} {as : List α} :
    itemsUntil close item n s = some (as, rest) ↔ Items close item n s as rest := by
  constructor
  · intro h
    induction n generalizing s as with
    | zero => cases h
    | succ n ih =>
      unfold itemsUntil at h
      split at h
      · cases h
      · next c r hskip =>
        split at h
        · next hc =>
          cases h
          exact .closed (hc ▸ hskip)
        · next hc =>
          split at h
          · cases h
          · next a t hitem =>
            split at h
            · cases h
            · next d u hend =>
              split at h
              · next hd =>
                cases h
                exact .last hskip hc hitem (hd ▸ hend)
              · next hd =>
                split at h
                · next hcomma =>
                  obtain ⟨⟨as, left⟩, hmore, heq⟩ := Option.map_eq_some_iff.mp h
                  cases heq
                  subst hcomma
                  exact .more hskip hc hitem hend hd (ih hmore)
                · cases h
  · intro h
    induction h with
    | closed h => simp only [itemsUntil, h, if_true]
    | last h hc hitem hclose => simp only [itemsUntil, h, if_neg hc, hitem, hclose, if_true]
    | more h hc hitem hcomma hclose hmore ih =>
      simp only [itemsUntil, h, if_neg hc, hitem, hcomma, if_neg hclose, ih, if_true,
        Option.map_some]

/-- **Items are read alike**, if none of them is flawed. -/
theorem Items.append {α : Type} [HasSpans α] {close : Char} {item : Reader (Except Flaw α)}
    (hitem : IsStable item) {n : Nat} {s rest : List Char} {xs : List (Except Flaw α)}
    (h : Items close item n s xs rest) (hs : IsOneLine s) (hok : ∀ x ∈ xs, ∃ a, x = .ok a) :
    rest <:+ s ∧ HasSpans.mapSpans (Span.cut s.length) xs = xs ∧
      ∀ t m, EndsLine t → n ≤ m →
        Items close item m (s ++ t) (HasSpans.mapSpans (Span.moved t.length) xs) (rest ++ t) := by
  have hbound {n m : Nat} (hm : n + 1 ≤ m) : ∃ m', m = m' + 1 ∧ n ≤ m' := ⟨m - 1, by omega⟩
  induction h with
  | closed hskip =>
    obtain ⟨hsuffix, happend⟩ := skipFiller_append hs hskip
    refine ⟨(List.suffix_cons _ _).trans hsuffix, rfl, fun t m _ hm => ?_⟩
    obtain ⟨m, rfl, -⟩ := hbound hm
    exact .closed (happend t)
  | last hskip hc hread hclose =>
    obtain ⟨a, rfl⟩ := hok _ List.mem_cons_self
    obtain ⟨hsuffix, happend⟩ := skipFiller_append hs hskip
    obtain ⟨hleft, hwithin, hitems⟩ := hitem.reads _ a _ (hs.of_suffix hsuffix) hread
    have htail := hleft.trans hsuffix
    obtain ⟨hend, hends⟩ := skipFiller_append (hs.of_suffix htail) hclose
    have hin := within_of_le hwithin hsuffix.length_le
    refine ⟨(List.suffix_cons _ _).trans (hend.trans htail), ?_, fun t m ht hm => ?_⟩
    · exact congrArg (fun a => [Except.ok a]) hin
    · obtain ⟨m, rfl, -⟩ := hbound hm
      exact .last (happend t) hc (hitems t ht) (hends t)
  | more hskip hc hread hcomma hclose _ ih =>
    obtain ⟨⟨a, rfl⟩, hrest⟩ := List.forall_mem_cons.mp hok
    obtain ⟨hsuffix, happend⟩ := skipFiller_append hs hskip
    obtain ⟨hleft, hwithin, hitems⟩ := hitem.reads _ a _ (hs.of_suffix hsuffix) hread
    have htail := hleft.trans hsuffix
    obtain ⟨hend, hends⟩ := skipFiller_append (hs.of_suffix htail) hcomma
    have hnext := (List.suffix_cons _ _).trans (hend.trans htail)
    obtain ⟨hlast, hcut, hmore⟩ := ih (hs.of_suffix hnext) hrest
    have hin := within_of_le hwithin hsuffix.length_le
    refine ⟨hlast.trans hnext, ?_, fun t m ht hm => ?_⟩
    · exact congrArg₂ (fun a xs => Except.ok a :: xs) hin (within_of_le hcut hnext.length_le)
    · obtain ⟨m, rfl, hle⟩ := hbound hm
      exact .more (happend t) hc (hitems t ht) (hends t) hclose (hmore t m ht hle)

theorem located_eq (r : Reader (Except Flaw Value)) (s : List Char) :
    located r s = (r s).map fun p => (p.1.map fun v => ⟨⟨s.length, p.2.length⟩, v⟩, p.2) := by
  unfold located Reader.spanned
  cases r s <;> rfl

section Brackets

variable {item : Reader (Except Flaw Value)}

theorem IsStable.located (hitem : IsStable item) : IsStable (located item) := by
  refine ⟨by rw [located_eq, hitem.nil]; rfl, fun s v rest hs h => ?_⟩
  rw [located_eq] at h
  obtain ⟨⟨w, left⟩, hread, heq⟩ := Option.map_eq_some_iff.mp h
  obtain ⟨hvalue, rfl⟩ := Prod.mk.inj heq
  obtain ⟨w, rfl, rfl⟩ := map_eq_ok_iff.mp hvalue
  obtain ⟨hsuffix, hwithin, happend⟩ := hitem.reads s w left hs hread
  refine ⟨hsuffix, ?_, fun t ht => ?_⟩
  · exact congrArg₂ Located.mk (by simp [Span.cut]) hwithin
  · rw [located_eq, happend t ht]
    simp [Except.map, HasSpans.mapSpans, Located.mapSpans, Span.moved]

theorem pair?_eq_ok {key : Except Flaw (List Key × Key)} {v : Except Flaw (Located Value)}
    {a : Assignment} (h : Assignment.pair? key v = .ok a) : key = .ok a.key ∧ v = .ok a.value := by
  unfold Assignment.pair? at h
  split at h
  · cases h
    exact ⟨rfl, rfl⟩
  · cases h
  · cases h

theorem assignment_of_equals {skip : List Char → List Char} {s r u : List Char}
    {key : Except Flaw (List Key × Key)} (h : dottedKey s = some (key, r))
    (hequals : skip r = '=' :: u) :
    assignment skip item s =
      (Toml.located item (skip u)).map fun p => (Assignment.pair? key p.1, p.2) := by
  simp only [assignment, h, hequals]

theorem exists_of_assignment {skip : List Char → List Char} {s rest : List Char}
    {x : Except Flaw Assignment} (h : assignment skip item s = some (x, rest)) :
    ∃ key r u, dottedKey s = some (key, r) ∧ skip r = '=' :: u := by
  unfold assignment at h
  split at h
  · cases h
  · next key r hkey =>
    split at h
    · next u hequals => exact ⟨key, r, u, hkey, hequals⟩
    · cases h

theorem IsStable.assignment (hitem : IsStable item) : IsStable (assignment skipFiller item) := by
  refine ⟨rfl, fun s a rest hs h => ?_⟩
  obtain ⟨key, r, u, hkey, hequals⟩ := exists_of_assignment h
  rw [assignment_of_equals hkey hequals] at h
  obtain ⟨⟨v, left⟩, hvalue, heq⟩ := Option.map_eq_some_iff.mp h
  obtain ⟨hpair, rfl⟩ := Prod.mk.inj heq
  obtain ⟨rfl, hv⟩ := pair?_eq_ok hpair
  dsimp only at hv
  subst hv
  obtain ⟨hsuffix, hwithin, happend⟩ := isStable_dottedKey.reads s _ r hs hkey
  obtain ⟨hmark, hequal⟩ := skipFiller_append (hs.of_suffix hsuffix) hequals
  have hnext := (List.suffix_cons '=' u).trans (hmark.trans hsuffix)
  -- there is something to skip to, as no value is read from the empty text
  obtain ⟨c, w, hskip⟩ : ∃ c w, skipFiller u = c :: w := by
    refine List.exists_cons_of_ne_nil fun hnil => ?_
    rw [hnil, hitem.located.nil] at hvalue
    cases hvalue
  obtain ⟨hstart, hstarts⟩ := skipFiller_append (hs.of_suffix hnext) hskip
  rw [hskip] at hvalue
  have hpart := hstart.trans hnext
  obtain ⟨hleft, hin, hreads⟩ := hitem.located.reads _ _ left (hs.of_suffix hpart) hvalue
  refine ⟨hleft.trans hpart, ?_, fun t ht => ?_⟩
  · exact congrArg₂ Assignment.mk hwithin (within_of_le hin hpart.length_le)
  · have hequal' : skipFiller (r ++ t) = '=' :: (u ++ t) := hequal t
    rw [assignment_of_equals (happend t ht) hequal', hstarts t, hreads t ht]
    rfl

theorem ok_of_arrayOf {xs : List (Except Flaw (Located Value))} {vs : List (Located Value)}
    (h : arrayOf xs = .ok vs) : ∀ x ∈ xs, ∃ v, x = .ok v := by
  induction xs generalizing vs with
  | nil => exact List.forall_mem_nil _
  | cons x xs ih =>
    cases x with
    | error e => cases h
    | ok v =>
      obtain ⟨ws, hrest, -⟩ := map_eq_ok_iff.mp h
      exact List.forall_mem_cons.mpr ⟨⟨v, rfl⟩, ih hrest⟩

theorem ok_of_inlineTable {xs : List (Except Flaw Assignment)} {v : Value}
    (h : inlineTable xs = .ok v) : ∀ x ∈ xs, ∃ a, x = .ok a := by
  obtain ⟨t, hfold, -⟩ := map_eq_ok_iff.mp h
  have hall (u : Table) (hu : xs.foldlM assignInline u = .ok t) : ∀ x ∈ xs, ∃ a, x = .ok a := by
    clear h hfold
    induction xs generalizing u with
    | nil => exact List.forall_mem_nil _
    | cons x xs ih =>
      rw [List.foldlM_cons] at hu
      cases x with
      | error e => cases hu
      | ok a =>
        cases hstep : assignInline u (.ok a) with
        | error e =>
          rw [hstep] at hu
          cases hu
        | ok w =>
          rw [hstep] at hu
          exact List.forall_mem_cons.mpr ⟨⟨a, rfl⟩, ih w hu⟩
  exact hall _ hfold

theorem bracketed_array (item : Reader (Except Flaw Value)) (r : List Char) :
    bracketed item ('[' :: r) = (itemsUntil ']' (Toml.located item) (r.length + 1) r).map fun p =>
      ((arrayOf p.1).map (.array false), p.2) := by
  rw [bracketed, if_pos rfl]

theorem bracketed_table (item : Reader (Except Flaw Value)) (r : List Char) :
    bracketed item ('\x7b' :: r) =
      (itemsUntil '\x7d' (Toml.assignment skipFiller item) (r.length + 1) r).map fun p =>
        (inlineTable p.1, p.2) := by
  rw [bracketed, if_neg (by decide), if_pos rfl]

theorem IsStable.bracketed (hitem : IsStable item) : IsStable (bracketed item) := by
  refine ⟨rfl, fun s v rest hs h => ?_⟩
  cases s with
  | nil => cases h
  | cons c r =>
    have hr := hs.of_suffix (List.suffix_cons c r)
    have hbound (t : List Char) : r.length + 1 ≤ (r ++ t).length + 1 := by simp
    by_cases harray : c = '['
    · subst harray
      rw [bracketed_array] at h
      obtain ⟨⟨xs, left⟩, hitems, heq⟩ := Option.map_eq_some_iff.mp h
      obtain ⟨hvalue, rfl⟩ := Prod.mk.inj heq
      obtain ⟨vs, hvs, rfl⟩ := map_eq_ok_iff.mp hvalue
      obtain ⟨hsuffix, hwithin, happend⟩ := (itemsUntil_eq_some_iff.mp hitems).append
        hitem.located hr (ok_of_arrayOf hvs)
      have hmap (f : Span → Span) : arrayOf (HasSpans.mapSpans f xs) = .ok (mapItems f vs) := by
        refine (arrayOf_map xs).trans ?_
        rw [show arrayOf xs = .ok vs from hvs]
        rfl
      have hcut : mapItems (Span.cut r.length) vs = vs := by
        have hsame := hmap (Span.cut r.length)
        rw [hwithin, show arrayOf xs = .ok vs from hvs] at hsame
        exact (Except.ok.inj hsame).symm
      refine ⟨hsuffix.trans (List.suffix_cons _ r), ?_, fun t ht => ?_⟩
      · exact within_of_le (a := Value.array false vs) (congrArg (Value.array false) hcut)
          (List.suffix_cons '[' r).length_le
      · rw [List.cons_append, bracketed_array,
          itemsUntil_eq_some_iff.mpr (happend t _ ht (hbound t)), Option.map_some, hmap]
        rfl
    · by_cases htable : c = '\x7b'
      · subst htable
        rw [bracketed_table] at h
        obtain ⟨⟨xs, left⟩, hitems, heq⟩ := Option.map_eq_some_iff.mp h
        obtain ⟨hvalue, rfl⟩ := Prod.mk.inj heq
        dsimp only at hvalue
        obtain ⟨hsuffix, hwithin, happend⟩ := (itemsUntil_eq_some_iff.mp hitems).append
          hitem.assignment hr (ok_of_inlineTable hvalue)
        have hmap (f : Span → Span) :
            inlineTable (HasSpans.mapSpans f xs) = .ok (v.mapSpans f) := by
          refine (inlineTable_map xs).trans ?_
          rw [hvalue]
          rfl
        have hcut : v.mapSpans (Span.cut r.length) = v := by
          have hsame := hmap (Span.cut r.length)
          rw [hwithin, hvalue] at hsame
          exact (Except.ok.inj hsame).symm
        refine ⟨hsuffix.trans (List.suffix_cons _ r), ?_, fun t ht => ?_⟩
        · exact within_of_le hcut (List.suffix_cons '\x7b' r).length_le
        · rw [List.cons_append, bracketed_table,
            itemsUntil_eq_some_iff.mpr (happend t _ ht (hbound t)), Option.map_some, hmap]
          rfl
      · rw [Toml.bracketed, if_neg harray, if_neg htable] at h
        cases h

end Brackets

/-! ## 7. Values -/

theorem bareText_of_not_start {c : Char} (h : isMark c = true ∨ isBareValue c = false)
    (hblank : isBlank c = false) (s : List Char) : bareText true (c :: s) = ([], c :: s) := by
  unfold bareText
  rw [hblank, if_neg (by decide), if_pos]
  rcases h with h | h <;> simp [h]

variable {c : Char}

theorem valueWithin_of_isMark (h : isMark c = true) (n : Nat) (s : List Char) :
    valueWithin n (c :: s) = textValue (c :: s) := by
  obtain ⟨p, hp⟩ := exists_quoted_of_isMark h s
  obtain ⟨x, hx⟩ : ∃ x, textValue (c :: s) = some x := ⟨_, by unfold textValue; rw [hp]; rfl⟩
  cases n <;> simp [valueWithin, hx]

theorem textValue_of_not_isMark (h : isMark c = false) (s : List Char) :
    textValue (c :: s) = none := by
  unfold textValue
  rw [quoted_of_not_isMark h]
  rfl

/-- A bracket starts no value but one in brackets, for which a level has to be left. -/
theorem valueWithin_of_bracket (h : c = '[' ∨ c = '\x7b') (n : Nat) (s : List Char) :
    valueWithin (n + 1) (c :: s) = bracketed (valueWithin n) (c :: s) ∧
      valueWithin 0 (c :: s) = none := by
  have hmark : isMark c = false := by rcases h with rfl | rfl <;> decide
  have hbare : bareValue (c :: s) = none := by
    unfold bareValue
    rw [bareText_of_not_start (Or.inr _) _]
    · rcases h with rfl | rfl <;> decide
    · rcases h with rfl | rfl <;> decide
  simp [valueWithin, textValue_of_not_isMark hmark, hbare]

theorem valueWithin_of_plain (hmark : isMark c = false) (hbracket : ¬ (c = '[' ∨ c = '\x7b'))
    (n : Nat) (s : List Char) : valueWithin n (c :: s) = bareValue (c :: s) := by
  obtain ⟨harray, htable⟩ := not_or.mp hbracket
  cases n with
  | zero => simp [valueWithin, textValue_of_not_isMark hmark]
  | succ n => simp [valueWithin, textValue_of_not_isMark hmark, bracketed, harray, htable]

/-- A reader that chooses by the first character. -/
theorem IsStable.of_head {r : Reader (Except Flaw Value)} (hnil : r [] = none)
    (h : ∀ c, ∃ r', IsStable r' ∧ ∀ s, r (c :: s) = r' (c :: s)) : IsStable r := by
  refine ⟨hnil, fun s v rest hs hread => ?_⟩
  cases s with
  | nil =>
    rw [hnil] at hread
    cases hread
  | cons c s =>
    obtain ⟨r', hstable, hsame⟩ := h c
    rw [hsame] at hread
    obtain ⟨hsuffix, hwithin, happend⟩ := hstable.reads _ v rest hs hread
    exact ⟨hsuffix, hwithin, fun t ht => (hsame _).trans (happend t ht)⟩

theorem isStable_none : IsStable (fun _ => none : Reader (Except Flaw Value)) := ⟨rfl, nofun⟩

/-- **Every value is read alike before the end of its line**, to whatever depth it nests. -/
theorem isStable_valueWithin (n : Nat) : IsStable (valueWithin n) := by
  induction n with
  | zero =>
    refine .of_head rfl fun c => ?_
    by_cases hmark : isMark c = true
    · exact ⟨_, isStable_textValue, valueWithin_of_isMark hmark 0⟩
    · by_cases hbracket : c = '[' ∨ c = '\x7b'
      · exact ⟨_, isStable_none, fun s => (valueWithin_of_bracket hbracket 0 s).2⟩
      · exact ⟨_, isStable_bareValue,
          valueWithin_of_plain (Bool.eq_false_iff.mpr hmark) hbracket 0⟩
  | succ n ih =>
    refine .of_head rfl fun c => ?_
    by_cases hmark : isMark c = true
    · exact ⟨_, isStable_textValue, valueWithin_of_isMark hmark (n + 1)⟩
    · by_cases hbracket : c = '[' ∨ c = '\x7b'
      · exact ⟨_, ih.bracketed, fun s => (valueWithin_of_bracket hbracket n s).1⟩
      · exact ⟨_, isStable_bareValue,
          valueWithin_of_plain (Bool.eq_false_iff.mpr hmark) hbracket (n + 1)⟩

/-! ## 8. Lists in lists -/

theorem skipFiller_bracket {c : Char} (h : c = '[' ∨ c = ']') (s : List Char) :
    skipFiller (c :: s) = c :: s := by
  have hskip : skipComment (skipBlanks (c :: s)) = c :: s := by rcases h with rfl | rfl <;> rfl
  have hline : lineEnd? (c :: s) = none := by rcases h with rfl | rfl <;> rfl
  rw [skipFiller_eq, hskip, hline]

/-- Lists one in the other, `n` of them; the innermost is empty. -/
def nestedLists : Nat → List Char
  | 0 => []
  | n + 1 => '[' :: (nestedLists n ++ [']'])

theorem nestedLists_succ_append (n : Nat) (t : List Char) :
    nestedLists (n + 1) ++ t = '[' :: (nestedLists n ++ ']' :: t) := by
  simp [nestedLists]

/-- A list is read, one level down, item by item. -/
theorem valueWithin_list {n : Nat} {s t : List Char} {xs : List (Except Flaw (Located Value))}
    {vs : List (Located Value)} (hitems : Items ']' (located (valueWithin n)) (s.length + 1) s xs t)
    (hxs : arrayOf xs = .ok vs) :
    valueWithin (n + 1) ('[' :: s) = some (.ok (.array false vs), t) := by
  rw [(valueWithin_of_bracket (Or.inl rfl) n s).1, bracketed_array,
    itemsUntil_eq_some_iff.mpr hitems, Option.map_some, hxs]
  rfl

/-- **Lists are read as deep as levels are left** for them. -/
theorem exists_valueWithin_nestedLists (n : Nat) (t : List Char) :
    ∃ v, valueWithin (n + 1) (nestedLists (n + 1) ++ t) = some (.ok v, t) := by
  induction n generalizing t with
  | zero => exact ⟨_, valueWithin_list (.closed (skipFiller_bracket (Or.inr rfl) t)) rfl⟩
  | succ n ih =>
    obtain ⟨v, hv⟩ := ih (']' :: t)
    rw [nestedLists_succ_append] at hv
    obtain ⟨w, hinner⟩ : ∃ w, located (valueWithin (n + 1))
        ('[' :: (nestedLists n ++ ']' :: ']' :: t)) = some (.ok w, ']' :: t) :=
      ⟨_, by rw [located_eq, hv]; rfl⟩
    rw [nestedLists_succ_append (n + 1), nestedLists_succ_append n]
    exact ⟨_, valueWithin_list (.last (skipFiller_bracket (Or.inl rfl) _) (by decide) hinner
      (skipFiller_bracket (Or.inr rfl) t)) rfl⟩

/-- **Deeper lists are no value.** -/
theorem valueWithin_nestedLists_eq_none (n : Nat) (t : List Char) :
    valueWithin n (nestedLists (n + 1) ++ t) = none := by
  induction n generalizing t with
  | zero => exact (valueWithin_of_bracket (Or.inl rfl) 0 _).2
  | succ n ih =>
    have hinner := ih (']' :: t)
    rw [nestedLists_succ_append] at hinner
    rw [nestedLists_succ_append (n + 1), nestedLists_succ_append n,
      (valueWithin_of_bracket (Or.inl rfl) n _).1, bracketed_array, Option.map_eq_none_iff]
    unfold itemsUntil
    simp [skipFiller_bracket, located_eq, hinner]

end SuiteDriver.Toml

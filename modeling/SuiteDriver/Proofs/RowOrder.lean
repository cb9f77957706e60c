import SuiteDriver.Proofs.LeastOffender

/-!
# The order of the rows has no say

Rows that set different keys say the same in every order. If none of them offends they are one
configuration. If some do, the text is refused for the one of them whose key has the least bytes;
that row is quoted, at the line where it stands, and all else that is told is told of the row as if
it stood alone.

* `Row.bytes_le_iff`: bare keys are in the order of their bytes;
* `Config.SaidBy`, `Config.SaidBy.unique`: what rows say, in any order;
* `Config.exists_parse_of_not_offends`: rows without offence are a configuration;
* `Config.ShownAt`, `Config.parse_of_fault`: a row that is refused, and how it is shown;
* `Config.parse_of_unreadable`, `Config.parse_of_no_value`: texts that are malformed for a value;
* `Config.least_offender_decides`: two orders of the same rows.
-/

namespace SuiteDriver

open Toml

/-! ## 1. Keys by their bytes -/

/-- The bytes of a text. -/
def Text.bytes (s : String) : List UInt8 := s.toUTF8.data.toList

namespace Text

theorem bytes_eq_flatMap (s : String) : bytes s = s.toList.flatMap String.utf8EncodeChar := by
  have hencode : s.toUTF8 = (s.toList.flatMap String.utf8EncodeChar).toByteArray :=
    String.utf8Encode_toList.symm
  rw [bytes, hencode, List.data_toByteArray]

/-- Characters of one byte are in the order of their bytes. -/
theorem flatMap_lt_iff {s t : List Char} (hs : ∀ c ∈ s, c.toNat ≤ 127) (ht : ∀ c ∈ t, c.toNat ≤ 127) :
    s.flatMap String.utf8EncodeChar < t.flatMap String.utf8EncodeChar ↔ s < t := by
  have hencode {c : Char} (hc : c.toNat ≤ 127) : String.utf8EncodeChar c = [UInt8.ofNat c.toNat] :=
    if_pos hc
  induction s generalizing t with
  | nil =>
    cases t with
    | nil => simp
    | cons d t => simp [hencode (ht d List.mem_cons_self)]
  | cons c s ih =>
    cases t with
    | nil => simp
    | cons d t =>
      obtain ⟨hc, hs⟩ := List.forall_mem_cons.mp hs
      obtain ⟨hd, ht⟩ := List.forall_mem_cons.mp ht
      -- either character is the byte that has its number
      have hlt : UInt8.ofNat c.toNat < UInt8.ofNat d.toNat ↔ c < d := by
        rw [UInt8.lt_iff_toNat_lt, UInt8.toNat_ofNat_of_lt' (by omega : c.toNat < 256),
          UInt8.toNat_ofNat_of_lt' (by omega : d.toNat < 256)]
        exact Iff.rfl
      have heq : UInt8.ofNat c.toNat = UInt8.ofNat d.toNat ↔ c = d := by
        rw [← UInt8.toNat_inj, UInt8.toNat_ofNat_of_lt' (by omega : c.toNat < 256),
          UInt8.toNat_ofNat_of_lt' (by omega : d.toNat < 256)]
        exact Char.toNat_inj
      rw [List.flatMap_cons, List.flatMap_cons, hencode hc, hencode hd, List.singleton_append,
        List.singleton_append, List.cons_lt_cons_iff, List.cons_lt_cons_iff]
      exact or_congr hlt (and_congr heq (ih hs ht))

end Text

/-- A bare key is of characters of one byte: every class of them has an upper end. -/
theorem Toml.toNat_le_of_isBareKey {c : Char} (h : isBareKey c = true) : c.toNat ≤ 127 := by
  have hend {d : Char} (hd : d.toNat ≤ 127) (hle : c.val ≤ d.val) : c.toNat ≤ 127 :=
    Nat.le_trans (UInt32.le_iff_toNat_le.mp hle) hd
  have hupper (hc : c.isUpper = true) : c.val ≤ 'Z'.val := (of_decide_eq_true hc).2
  have hlower (hc : c.isLower = true) : c.val ≤ 'z'.val :=
    of_decide_eq_true (Bool.and_eq_true_iff.mp hc).2
  have hdigit (hc : c.isDigit = true) : c.val ≤ '9'.val :=
    of_decide_eq_true (Bool.and_eq_true_iff.mp hc).2
  simp only [isBareKey, Bool.or_eq_true, beq_iff_eq] at h
  rcases h with (hword | rfl) | rfl
  · rcases Bool.or_eq_true_iff.mp hword with hletter | hc
    · rcases Bool.or_eq_true_iff.mp hletter with hc | hc
      · exact hend (by decide) (hupper hc)
      · exact hend (by decide) (hlower hc)
    · exact hend (by decide) (hdigit hc)
  · decide
  · decide

/-- **Bare keys are in the order of their bytes.** -/
theorem Toml.Row.bytes_le_iff (r r' : Row) : Text.bytes r.key ≤ Text.bytes r'.key ↔ r.key ≤ r'.key := by
  have hbytes (r : Row) : ∀ c ∈ r.key.toList, c.toNat ≤ 127 := fun c hc =>
    toNat_le_of_isBareKey (List.all_eq_true.mp r.bare.2 c hc)
  have hlt := Text.flatMap_lt_iff (hbytes r') (hbytes r)
  rw [Text.bytes_eq_flatMap, Text.bytes_eq_flatMap]
  exact not_congr hlt

/-! ## 2. What rows say -/

namespace Toml

theorem mapSpans_eq_text_iff {f : Span → Span} {v : Value} {t : String} :
    v.mapSpans f = .text t ↔ v = .text t := by
  cases v with
  | text => exact Iff.rfl
  | integer | float | boolean | moment | array | table => exact ⟨nofun, nofun⟩

namespace Sheet

theorem exists_row_of_mem {s : Sheet} {e : Key × Located Value} (h : e ∈ s.entries) :
    ∃ r ∈ s.rows, ∃ k, e = r.entryBefore k := by
  induction s with
  | blank => cases h
  | last r => exact ⟨r, List.mem_cons_self, _, List.mem_singleton.mp h⟩
  | more r e rest ih =>
    rcases List.mem_cons.mp h with rfl | h
    · exact ⟨r, List.mem_cons_self, _, rfl⟩
    · obtain ⟨r', hr', k, hk⟩ := ih h
      exact ⟨r', List.mem_cons_of_mem _ hr', k, hk⟩

theorem exists_entry_of_mem {s : Sheet} {r : Row} (h : r ∈ s.rows) :
    ∃ k, r.entryBefore k ∈ s.entries := by
  obtain ⟨i, hi⟩ := List.mem_iff_getElem?.mp h
  obtain ⟨front, rest, hholds⟩ := exists_holds hi
  exact ⟨_, hholds.entry⟩

/-- **Under a name stands what the row of that name sets.** -/
theorem find?_eq_some_iff {s : Sheet} (hkeys : (s.rows.map Row.key).Nodup) {name : String}
    (P : Value → Prop) (hP : ∀ f v, P (Value.mapSpans f v) ↔ P v) :
    (∃ v, s.entries.find? name = some v ∧ P v.value) ↔
      ∃ r ∈ s.rows, r.key = name ∧ P r.value := by
  constructor
  · rintro ⟨v, hv, hp⟩
    obtain ⟨key, hmem, rfl⟩ := Entries.exists_key_of_find? hv
    obtain ⟨r, hr, k, hentry⟩ := exists_row_of_mem hmem
    obtain ⟨rfl, rfl⟩ := Prod.mk.inj hentry
    exact ⟨r, hr, rfl, (hP _ _).mp hp⟩
  · rintro ⟨r, hr, rfl, hp⟩
    obtain ⟨k, hmem⟩ := exists_entry_of_mem hr
    have hnames : s.entries.names.Nodup := s.names_entries ▸ hkeys
    exact ⟨_, Entries.find?_of_mem hnames hmem, (hP _ _).mpr hp⟩

end Sheet

end Toml

namespace Config

/-- **What rows say**, in any order: their texts, and the variant that one of them names, else the
    archive. -/
structure SaidBy (c : Config) (rows : List Row) : Prop where
  language : ∀ t, c.language = some t ↔ ∃ r ∈ rows, r.key = "language" ∧ r.value = .text t
  projectDir : ∀ t, c.projectDir = some t ↔ ∃ r ∈ rows, r.key = "project_dir" ∧ r.value = .text t
  named : ∀ r ∈ rows, r.key = "variant" → r.value.Names c.variant
  unnamed : (∀ r ∈ rows, r.key ≠ "variant") → c.variant = .jar

variable {c d : Config} {rows rows' : List Row} {r : Row}

theorem SaidBy.perm (h : c.SaidBy rows) (hperm : rows.Perm rows') : c.SaidBy rows' where
  language t := by simp [h.language t, hperm.mem_iff]
  projectDir t := by simp [h.projectDir t, hperm.mem_iff]
  named r hr := h.named r (hperm.mem_iff.mpr hr)
  unnamed hnone := h.unnamed fun r hr => hnone r (hperm.mem_iff.mp hr)

/-- A value names one variant. -/
theorem names_unique {v : Value} {x y : Variant} (hx : v.Names x) (hy : v.Names y) : x = y := by
  have hdecode (z : Variant) (hz : v.Names z) : decodeVariant ⟨⟨0, 0⟩, v⟩ = .ok z :=
    decodeVariant_eq_ok_iff.mpr hz
  exact Except.ok.inj ((hdecode x hx).symm.trans (hdecode y hy))

theorem names_mapSpans_iff (x : Variant) (f : Span → Span) (v : Value) :
    (v.mapSpans f).Names x ↔ v.Names x := by
  have hleft : decodeVariant (Located.mapSpans f ⟨⟨0, 0⟩, v⟩) = .ok x ↔ (v.mapSpans f).Names x :=
    decodeVariant_eq_ok_iff
  have hright : decodeVariant ⟨⟨0, 0⟩, v⟩ = .ok x ↔ v.Names x := decodeVariant_eq_ok_iff
  rw [← hleft, ← hright, decodeVariant_mapSpans]
  cases decodeVariant ⟨⟨0, 0⟩, v⟩ <;> simp [Except.mapError]

/-- **Rows say one configuration.** -/
theorem SaidBy.unique (hc : c.SaidBy rows) (hd : d.SaidBy rows) : c = d := by
  have hlanguage : c.language = d.language :=
    Option.ext fun t => (hc.language t).trans (hd.language t).symm
  have hdir : c.projectDir = d.projectDir :=
    Option.ext fun t => (hc.projectDir t).trans (hd.projectDir t).symm
  have hvariant : c.variant = d.variant := by
    by_cases hnamed : ∃ r ∈ rows, r.key = "variant"
    · obtain ⟨r, hr, hk⟩ := hnamed
      exact names_unique (hc.named r hr hk) (hd.named r hr hk)
    · have hnone : ∀ r ∈ rows, r.key ≠ "variant" := fun r hr hk => hnamed ⟨r, hr, hk⟩
      rw [hc.unnamed hnone, hd.unnamed hnone]
  cases c
  cases d
  simp_all

theorem textAt_eq_some_iff {es : Entries} {name t : String} :
    es.textAt name = some t ↔ ∃ v, es.find? name = some v ∧ v.value = .text t := by
  unfold Entries.textAt
  cases hfind : es.find? name with
  | none => simp
  | some v =>
    obtain ⟨span, v⟩ := v
    cases v <;> simp

theorem Says.saidBy {s : Sheet} (hkeys : (s.rows.map Row.key).Nodup) (h : c.Says s.entries) :
    c.SaidBy s.rows where
  language t := by
    rw [h.language, textAt_eq_some_iff]
    exact Sheet.find?_eq_some_iff hkeys (· = .text t) fun f v => mapSpans_eq_text_iff
  projectDir t := by
    rw [h.projectDir, textAt_eq_some_iff]
    exact Sheet.find?_eq_some_iff hkeys (· = .text t) fun f v => mapSpans_eq_text_iff
  named r hr hk := by
    obtain ⟨k, hmem⟩ := Sheet.exists_entry_of_mem hr
    have hnames : s.entries.names.Nodup := s.names_entries ▸ hkeys
    have hfound : s.entries.find? r.key = some (r.entryBefore k).2 :=
      Entries.find?_of_mem hnames hmem
    exact (names_mapSpans_iff _ _ _).mp (h.named _ (hk ▸ hfound))
  unnamed hnone := by
    refine h.unnamed (Entries.find?_eq_none_iff.mpr ?_)
    rw [s.names_entries]
    intro hmem
    obtain ⟨r, hr, hk⟩ := List.mem_map.mp hmem
    exact hnone r hr hk

/-! ## 3. A sheet without offence, with one, and one that is not read -/

theorem parse_text (s : Sheet) (hkeys : (s.rows.map Row.key).Nodup) :
    parse s.text = match decode s.entries with
      | .ok c => .ok c
      | .error .unreadable => .error .malformed
      | .error (.fault span problem) =>
        .error (.refused (Place.ofSpan s.chars span) problem) := by
  unfold parse Sheet.text
  cases hdecoded : decode s.entries with
  | ok c => simp [s.readEntries_chars hkeys, hdecoded]
  | error x => cases x <;> simp [s.readEntries_chars hkeys, hdecoded]

theorem decodeEntry_entryBefore (c : Config) (r : Row) (k : Nat) :
    decodeEntry c (r.entryBefore k) =
      (decodeEntry c r.entry).mapError (Refusal.mapSpan (Span.moved k)) :=
  decodeEntry_mapEntry c r.entry

theorem exists_error_entryBefore (r : Row) (k : Nat) :
    (∃ x, decodeEntry empty (r.entryBefore k) = .error x) ↔ Offends r := by
  rw [offends_iff, decodeEntry_entryBefore]
  cases decodeEntry empty r.entry <;> simp [Except.mapError]

/-- **Rows without offence are a configuration.** -/
theorem exists_parse_of_not_offends {s : Sheet} (hkeys : (s.rows.map Row.key).Nodup)
    (h : ∀ r ∈ s.rows, ¬ Offends r) : ∃ c : Config, c.SaidBy s.rows ∧ parse s.text = .ok c := by
  have hnames : s.entries.names.Nodup := s.names_entries ▸ hkeys
  have hfits : s.entries.Fits := by
    refine (fits_iff hnames empty).mpr fun e he => ?_
    obtain ⟨r, hr, k, rfl⟩ := Sheet.exists_row_of_mem he
    cases hentry : decodeEntry empty (r.entryBefore k) with
    | ok d => exact ⟨d, decodeEntry_eq_ok_iff.mp hentry⟩
    | error x => exact absurd ((exists_error_entryBefore r k).mp ⟨x, hentry⟩) (h r hr)
  obtain ⟨c, hc⟩ := (exists_decode_iff hnames).mpr hfits
  exact ⟨c, (says_of_decode hnames hc).saidBy hkeys, by rw [parse_text s hkeys, hc]⟩

/-- Of the rows with a property one has the least key. -/
theorem exists_least {P : Row → Prop} (h : ∃ r ∈ rows, P r) :
    ∃ r ∈ rows, P r ∧ ∀ o ∈ rows, P o → r.key ≤ o.key := by
  induction rows with
  | nil =>
    obtain ⟨r, hr, -⟩ := h
    cases hr
  | cons first rows ih =>
    -- the least of the others, if there is one, against the first
    by_cases hrest : ∃ r ∈ rows, P r
    · obtain ⟨r, hr, hp, hleast⟩ := ih hrest
      by_cases hfirst : P first ∧ first.key ≤ r.key
      · refine ⟨first, List.mem_cons_self, hfirst.1, fun o ho hpo => ?_⟩
        rcases List.mem_cons.mp ho with rfl | ho
        · exact String.le_refl _
        · exact String.le_trans hfirst.2 (hleast o ho hpo)
      · refine ⟨r, List.mem_cons_of_mem _ hr, hp, fun o ho hpo => ?_⟩
        rcases List.mem_cons.mp ho with rfl | ho
        · exact (String.le_total r.key o.key).resolve_right fun hle => hfirst ⟨hpo, hle⟩
        · exact hleast o ho hpo
    · obtain ⟨r, hr, hp⟩ := h
      have hsame : r = first := by
        rcases List.mem_cons.mp hr with hsame | hr
        · exact hsame
        · exact absurd ⟨r, hr, hp⟩ hrest
      subst hsame
      refine ⟨r, List.mem_cons_self, hp, fun o ho hpo => ?_⟩
      rcases List.mem_cons.mp ho with rfl | ho
      · exact String.le_refl _
      · exact absurd ⟨o, ho, hpo⟩ hrest

/-- **The row of the least key that offends decides** what a sheet is refused for. -/
theorem decode_of_offends {s : Sheet} (hkeys : (s.rows.map Row.key).Nodup) {i : Nat}
    {front rest : List Char} (hholds : s.Holds i r front rest) {x : Refusal}
    (hx : decodeEntry empty r.entry = .error x)
    (hleast : ∀ o ∈ s.rows, Offends o → r.key ≤ o.key) :
    decode s.entries =
      .error (x.mapSpan (Span.moved (r.remark.chars ++ rest).length)) := by
  have hnames : s.entries.names.Nodup := s.names_entries ▸ hkeys
  refine decode_of_least hnames hholds.entry ?_ fun e he hrefused => ?_
  · rw [decodeEntry_entryBefore, hx]
    rfl
  · obtain ⟨o, ho, k, rfl⟩ := Sheet.exists_row_of_mem he
    exact hleast o ho ((exists_error_entryBefore o k).mp hrefused)

/-- What a row is refused for stands in the row. -/
theorem start_le_of_fault {span : Span} {problem : Problem}
    (hx : decodeEntry empty r.entry = .error (.fault span problem)) :
    span.start ≤ r.keyOn.length := by
  -- cut off at the row the entry is the same, so its refusal is too, and with it the span
  have hcut := decodeEntry_mapEntry (f := Span.cut r.keyOn.length) empty r.entry
  rw [r.within, hx] at hcut
  have hspan : span = span.cut r.keyOn.length := by
    injection hcut with hcut
    injection hcut
  have hmin : span.start = min span.start r.keyOn.length := congrArg Span.start hspan
  omega

/-- **A fault is shown at a row**: in its line, which is quoted, and there as it is shown for the row
    alone. Of a line end of two characters the first counts as a part of the line. -/
structure ShownAt (r : Row) (i : Nat) (problem : Problem) (p : Place) : Prop where
  line : p.line = i + 1
  quoted : p.quoted = r.chars ∨ p.quoted = r.chars ++ ['\r']
  alone : ∃ q, parse (Sheet.last r).text = .error (.refused q problem) ∧
    p.column = q.column ∧ p.marks = q.marks

/-- A row alone has no other beside it. -/
theorem nodup_last (r : Row) : ((Sheet.last r).rows.map Row.key).Nodup := by
  simp [Sheet.rows]

theorem le_of_mem_last (r : Row) : ∀ o ∈ (Sheet.last r).rows, Offends o → r.key ≤ o.key :=
  fun o ho _ => by
    obtain rfl := List.mem_singleton.mp ho
    exact String.le_refl _

/-- **The row of the least key that offends is reported where it stands.** -/
theorem parse_of_fault {s : Sheet} (hkeys : (s.rows.map Row.key).Nodup) {i : Nat}
    (hi : s.rows[i]? = some r) (hleast : ∀ o ∈ s.rows, Offends o → r.key ≤ o.key) {span : Span}
    {problem : Problem} (hx : decodeEntry empty r.entry = .error (.fault span problem)) :
    ∃ p, parse s.text = .error (.refused p problem) ∧ ShownAt r i problem p := by
  obtain ⟨front, rest, hholds⟩ := Sheet.exists_holds hi
  -- what follows the value is the remark, which belongs to the row, and then the other rows
  have hmoved : span.moved (r.remark.chars ++ rest).length =
      (span.moved r.remark.chars.length).moved rest.length := by
    simp only [Span.moved, List.length_append, Span.mk.injEq]
    omega
  have hparse : parse s.text = .error (.refused (Place.ofSpan (front ++ (r.chars ++ rest))
      ((span.moved r.remark.chars.length).moved rest.length)) problem) := by
    rw [parse_text s hkeys, decode_of_offends hkeys hholds hx hleast, ← hmoved, ← hholds.chars]
    rfl
  have halone : parse (Sheet.last r).text = .error (.refused (Place.ofSpan r.chars
      (span.moved r.remark.chars.length)) problem) := by
    have hlast : (Sheet.last r).Holds 0 r [] [] := by
      refine ⟨by simp [Sheet.chars], rfl, Or.inl rfl, .text, by simp [Sheet.entries]⟩
    rw [parse_text _ (nodup_last r), decode_of_offends (nodup_last r) hlast hx (le_of_mem_last r),
      List.append_nil]
    rfl
  have hstart : (span.moved r.remark.chars.length).start ≤ r.chars.length := by
    have hle := start_le_of_fault hx
    simp only [Span.moved, Row.chars, List.length_append]
    omega
  obtain ⟨hline, hcolumn, hquoted, hmarks⟩ :=
    @Place.ofSpan_of_split front r.chars rest hholds.start r.feed_not_mem_chars _ hstart
  refine ⟨_, hparse, by rw [hline, hholds.lines], ?_, _, halone, hcolumn, hmarks⟩
  rcases hholds.stop.firstLine_cases with hend | hend
  · exact Or.inl (by rw [hquoted, hend, List.append_nil])
  · exact Or.inr (by rw [hquoted, hend])

/-- If there are no words for its offence, the text counts as malformed. -/
theorem parse_of_unreadable {s : Sheet} (hkeys : (s.rows.map Row.key).Nodup) {i : Nat}
    (hi : s.rows[i]? = some r) (hleast : ∀ o ∈ s.rows, Offends o → r.key ≤ o.key)
    (hx : decodeEntry empty r.entry = .error .unreadable) : parse s.text = .error .malformed := by
  obtain ⟨front, rest, hholds⟩ := Sheet.exists_holds hi
  rw [parse_text s hkeys, decode_of_offends hkeys hholds hx hleast]
  rfl

/-- A text that is not read is refused for the flaw in it. -/
theorem parse_of_flaw {chars : List Char} {flaw : Flaw} (h : readEntries chars = .error flaw) :
    parse (String.ofList chars) = .error (.ofFlaw flaw) := by
  unfold parse
  simp only [String.toList_ofList, h]

/-- Where no value is read behind a key, the text is malformed. -/
theorem parse_of_no_value {key : String} (hkey : key.toList ≠ [] ∧ key.toList.all isBareKey = true)
    (before after : Blanks) {w : List Char} (hw : ∀ c, w.head? = some c → isBlank c = false)
    (hnone : value w = none) :
    parse (String.ofList (key.toList ++ (before.val ++ '=' :: (after.val ++ w)))) =
      .error .malformed := by
  have hread := read_bare_eq hkey before after hw
  rw [located_eq, hnone] at hread
  obtain ⟨c, t, hc, hfirst⟩ := exists_cons_of_bare hkey (before.val ++ '=' :: (after.val ++ w))
  rw [hfirst] at hread ⊢
  have hstatements : statements? (c :: t) = none := by
    have hskip : skipFiller (c :: t) = c :: t := skipFiller_key ⟨[], rfl⟩ hc t
    have hmark : (c :: t).head? ≠ some byteOrderMark := by
      rintro ⟨rfl⟩
      cases hc
    rw [statements?_eq_statementsWithin hmark, statementsWithin, hskip]
    dsimp only
    rw [hread]
    rfl
  have hflaw : readEntries (c :: t) = .error .malformed := by
    unfold readEntries
    rw [hstatements]
  exact parse_of_flaw hflaw

/-! ## 4. Any order -/

/-- **The order of rows has no say.** Two sheets of the same rows, which set different keys, are the
    same configuration if no row offends. If one does, both are refused for the same row and with
    the same words, at the line where it stands: of the rows that offend it is the one whose key has
    the least bytes, however many others there are. Only if its offence is a number without a value
    there are no words for it, and both texts count as malformed. -/
theorem least_offender_decides (a b : Sheet) (hkeys : (a.rows.map Row.key).Nodup)
    (hperm : a.rows.Perm b.rows) :
    ((∀ r ∈ a.rows, ¬ Offends r) ∧
      ∃ c : Config, c.SaidBy a.rows ∧ parse a.text = .ok c ∧ parse b.text = .ok c) ∨
    ∃ r ∈ a.rows, Offends r ∧
      (∀ o ∈ a.rows, Offends o → Text.bytes r.key ≤ Text.bytes o.key) ∧
      (((r.key = "language" ∨ r.key = "project_dir") ∧ IsNoNumber r.value ∧
          parse a.text = .error .malformed ∧ parse b.text = .error .malformed) ∨
        ∃ problem i j p q, a.rows[i]? = some r ∧ b.rows[j]? = some r ∧
          parse a.text = .error (.refused p problem) ∧ ShownAt r i problem p ∧
          parse b.text = .error (.refused q problem) ∧ ShownAt r j problem q) := by
  have hkeys' : (b.rows.map Row.key).Nodup := (hperm.map _).nodup_iff.mp hkeys
  by_cases hoffends : ∃ r ∈ a.rows, Offends r
  · right
    obtain ⟨r, hr, hoff, hleast⟩ := exists_least hoffends
    have hleast' : ∀ o ∈ b.rows, Offends o → r.key ≤ o.key := fun o ho =>
      hleast o (hperm.mem_iff.mpr ho)
    obtain ⟨i, hi⟩ := List.mem_iff_getElem?.mp hr
    obtain ⟨j, hj⟩ := List.mem_iff_getElem?.mp (hperm.mem_iff.mp hr)
    refine ⟨r, hr, hoff, fun o ho hoo => (r.bytes_le_iff o).mpr (hleast o ho hoo), ?_⟩
    obtain ⟨x, hx⟩ := offends_iff.mp hoff
    cases x with
    | unreadable =>
      obtain ⟨hkey, hnumber⟩ := decodeEntry_unreadable_iff.mp hx
      exact Or.inl ⟨hkey, hnumber, parse_of_unreadable hkeys hi hleast hx,
        parse_of_unreadable hkeys' hj hleast' hx⟩
    | fault span problem =>
      obtain ⟨p, hp, hshown⟩ := parse_of_fault hkeys hi hleast hx
      obtain ⟨q, hq, hshown'⟩ := parse_of_fault hkeys' hj hleast' hx
      exact Or.inr ⟨problem, i, j, p, q, hi, hj, hp, hshown, hq, hshown'⟩
  · left
    have hnone : ∀ r ∈ a.rows, ¬ Offends r := fun r hr hoff => hoffends ⟨r, hr, hoff⟩
    obtain ⟨c, hc, hparse⟩ := exists_parse_of_not_offends hkeys hnone
    obtain ⟨d, hd, hparse'⟩ := exists_parse_of_not_offends hkeys' fun r hr =>
      hnone r (hperm.mem_iff.mpr hr)
    obtain rfl := hc.unique (hd.perm hperm.symm)
    exact ⟨hnone, c, hc, hparse, hparse'⟩

/-- A key that is not known and a list where text is wanted, in both orders: the list is reported,
    as its key is the lesser, once in the second line and once in the first. -/
theorem least_offender_decides_of_list :
    let number : Row := ⟨⟨[], rfl⟩, "zeta", ⟨[' '], rfl⟩, ⟨[' '], rfl⟩, ['1'], .integer (some 1),
      .nothing, by decide, by decide, by simp [isBlank], rfl⟩
    let list : Row := ⟨⟨[], rfl⟩, "language", ⟨[], rfl⟩, ⟨[], rfl⟩, ['[', '1', ']'],
      .array false [⟨⟨2, 1⟩, .integer (some 1)⟩], ⟨⟨[' '], rfl⟩, some ⟨['!'], rfl⟩⟩,
      by decide, by decide, by simp [isBlank], rfl⟩
    let a := Sheet.more number .feed (.last list)
    let b := Sheet.more list .returnFeed (.more number .feed .blank)
    (a.rows.map Row.key).Nodup ∧ a.rows.Perm b.rows ∧ Offends number ∧ Offends list ∧
      ∃ problem p q, parse a.text = .error (.refused p problem) ∧ p.line = 2 ∧
        parse b.text = .error (.refused q problem) ∧ q.line = 1 := by
  intro number list a b
  have hkeys : (a.rows.map Row.key).Nodup := by decide
  have hperm : a.rows.Perm b.rows := List.Perm.swap list number []
  have hlist : Offends list := .notText (Or.inl rfl) nofun
  have hnumber : Offends number := .unknown (by decide)
  have hless : ¬ Text.bytes number.key ≤ Text.bytes list.key := by
    rw [Row.bytes_le_iff]
    decide
  refine ⟨hkeys, hperm, hnumber, hlist, ?_⟩
  rcases least_offender_decides a b hkeys hperm with ⟨hnone, -⟩ | ⟨r, hr, -, hleast, hdecides⟩
  · exact absurd hlist (hnone list (by simp [a, Sheet.rows]))
  · have hr : r = number ∨ r = list := by simpa [a, Sheet.rows] using hr
    rcases hr with rfl | rfl
    · exact absurd (hleast list (by simp [a, Sheet.rows]) hlist) hless
    · rcases hdecides with ⟨-, hnone, -⟩ | ⟨problem, i, j, p, q, hi, hj, hp, hps, hq, hqs⟩
      · cases hnone
      · have hne : number ≠ list := fun h => absurd (congrArg Row.key h) (by decide)
        obtain rfl : i = 1 := by
          rcases i with _ | _ | i
          · exact absurd (Option.some.inj hi) hne
          · rfl
          · cases hi
        obtain rfl : j = 0 := by
          rcases j with _ | _ | j
          · rfl
          · exact absurd (Option.some.inj hj) hne
          · cases hj
        exact ⟨problem, p, q, hp, hps.line, hq, hqs.line⟩

/-- Not all that the format allows is read as data. A key in braces with one segment too many is told
    in place of the least key that offends, and a list with one level too many is malformed; so is a
    whole number of more than 128 bits where text is wanted. -/
theorem allowed_values_are_no_data :
    parse (String.ofList ("a = 1\nproject_dir = \x7b ".toList ++
        ((List.replicate deepest ['a', '.']).flatten ++ "a = 1 \x7d".toList))) = .error .tooDeep ∧
      (∃ v, valueWithin (deepest + 1) (nestedLists (deepest + 1)) = some (.ok v, [])) ∧
      parse (String.ofList ("language = ".toList ++ nestedLists (deepest + 1))) =
        .error .malformed ∧
      value "340282366920938463463374607431768211456".toList =
        some (.ok (.integer (some limit128)), []) ∧
      parse "language = 340282366920938463463374607431768211456" = .error .malformed := by
  refine ⟨?_, ?_, ?_, rfl, ?_⟩
  · have hflaw : (readEntries ("a = 1\nproject_dir = \x7b ".toList ++
        ((List.replicate deepest ['a', '.']).flatten ++ "a = 1 \x7d".toList))).map (fun _ => ()) =
        .error .tooDeep := by decide +kernel
    exact parse_of_flaw (map_eq_error_iff.mp hflaw)
  · have hread := exists_valueWithin_nestedLists deepest []
    rwa [List.append_nil] at hread
  · have hnone := valueWithin_nestedLists_eq_none deepest []
    rw [List.append_nil] at hnone
    have hkey : "language".toList ≠ [] ∧ "language".toList.all isBareKey = true := by decide
    exact parse_of_no_value hkey ⟨[' '], rfl⟩ ⟨[' '], rfl⟩ (by rintro c ⟨⟩; decide) hnone
  · let number : Row := ⟨⟨[], rfl⟩, "language", ⟨[' '], rfl⟩, ⟨[' '], rfl⟩,
      "340282366920938463463374607431768211456".toList, .integer (some limit128), .nothing,
      by decide, by decide, by rintro c ⟨⟩; decide, rfl⟩
    have hunreadable : decodeEntry empty number.entry = .error .unreadable :=
      decodeEntry_unreadable_iff.mpr ⟨Or.inl rfl, .beyond (Or.inr (Int.le_refl _))⟩
    have hparse : parse (Sheet.last number).text = .error .malformed :=
      parse_of_unreadable (nodup_last number) (i := 0) rfl (le_of_mem_last number) hunreadable
    have htext : (Sheet.last number).text =
        "language = 340282366920938463463374607431768211456" := by
      decide +kernel
    rwa [htext] at hparse

end Config

end SuiteDriver

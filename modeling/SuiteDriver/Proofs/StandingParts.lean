import SuiteDriver.Proofs.WhatIsLeft

/-!
# Where the parts of a document stand

Whatever is in the table of a document is written in its text, and its span says where: at the span of
a key stands a segment that is read as that key, and at the span of a value what is read as that
value. A table with a header of its own, or a row of such tables, is pointed at by its first header,
and a table that only longer keys made by the segment that made it first.

* `Part`, `Part.StandsIn`: what can be pointed at, and that it is read where its span says;
* `Part.ofEntry`, `EntryStands`: what an entry is pointed at by;
* `Table.keepsStanding_under`: changes at the end of a path leave all parts where they stand;
* `givesStanding_valueWithin`: so it is in every value, to whatever depth it nests;
* `stands_of_readEntries`: and in the table of every text.
-/

namespace SuiteDriver.Toml

/-! ## 1. Parts -/

/-- A part of a text that can be pointed at. -/
inductive Part
  | key (k : Key)
  | value (v : Located Value)
  | header (k : Key) (span : Span)

namespace Part

/-- Where a part is written. -/
def span : Part → Span
  | key k => k.span
  | value v => v.span
  | header _ span => span

/-- **A part is read at the start of a text**, with something left after it. -/
inductive ReadFrom : Part → List Char → List Char → Prop
  | key {k : Key} {s rest : List Char} (h : keySegment s = some (.ok k, rest)) :
      ReadFrom (.key k) s rest
  | value {n : Nat} {v : Located Value} {s rest : List Char}
      (h : located (valueWithin n) s = some (.ok v, rest)) : ReadFrom (.value v) s rest
  | header {path : List Key} {k : Key} {span : Span} {s rest : List Char}
      (h : Statement.read s = some (.ok (.header path k span), rest)) :
      ReadFrom (.header k span) s rest
  | rowHeader {path : List Key} {k : Key} {span : Span} {s rest : List Char}
      (h : Statement.read s = some (.ok (.rowHeader path k span), rest)) :
      ReadFrom (.header k span) s rest

/-- **A part stands in a text**: it is read somewhere in it. -/
def StandsIn (p : Part) (source : List Char) : Prop :=
  ∃ s rest, s <:+ source ∧ p.ReadFrom s rest

theorem span_of_keySegment {s rest : List Char} {k : Key}
    (h : keySegment s = some (.ok k, rest)) : k.span = ⟨s.length, rest.length⟩ := by
  cases hquoted : quoted s with
  | some found =>
    rw [keySegment_of_quoted hquoted] at h
    obtain ⟨hkey, rfl⟩ := Prod.mk.inj (Option.some.inj h)
    obtain ⟨name, -, rfl⟩ := map_eq_ok_iff.mp hkey
    rfl
  | none =>
    cases hword : s.takeWhile isWordChar with
    | nil => simp [keySegment, hquoted, hword] at h
    | cons c r =>
      rw [keySegment_of_word hquoted hword] at h
      obtain ⟨hkey, rfl⟩ := Prod.mk.inj (Option.some.inj h)
      obtain ⟨name, -, rfl⟩ := map_eq_ok_iff.mp hkey
      rfl

theorem span_of_located {r : Reader (Except Flaw Value)} {s rest : List Char} {v : Located Value}
    (h : located r s = some (.ok v, rest)) : v.span = ⟨s.length, rest.length⟩ := by
  rw [located_eq] at h
  obtain ⟨⟨w, left⟩, -, heq⟩ := Option.map_eq_some_iff.mp h
  obtain ⟨hvalue, rfl⟩ := Prod.mk.inj heq
  obtain ⟨w, -, rfl⟩ := map_eq_ok_iff.mp hvalue
  rfl

theorem span_of_header {s rest : List Char} {x : Statement} {path : List Key} {k : Key}
    {span : Span} (h : Statement.read s = some (.ok x, rest))
    (hx : x = .header path k span ∨ x = .rowHeader path k span) :
    span = ⟨s.length, rest.length⟩ := by
  rcases Statement.read_cases h with ⟨-, key, -, -, hkey⟩ | ⟨-, key, -, -, hkey⟩ | ⟨a, -, ha⟩
  · obtain ⟨k, -, rfl⟩ := map_eq_ok_iff.mp hkey.symm
    rcases hx with hx | hx <;> cases hx
    rfl
  · obtain ⟨k, -, rfl⟩ := map_eq_ok_iff.mp hkey.symm
    rcases hx with hx | hx <;> cases hx
    rfl
  · obtain ⟨a, -, rfl⟩ := map_eq_ok_iff.mp ha.symm
    rcases hx with hx | hx <;> cases hx

variable {p : Part} {s rest : List Char}

/-- **The span of a part is the stretch that it is read from.** -/
theorem ReadFrom.span_eq (h : p.ReadFrom s rest) : p.span = ⟨s.length, rest.length⟩ := by
  cases h with
  | key h => exact span_of_keySegment h
  | value h => exact span_of_located h
  | header h => exact span_of_header h (Or.inl rfl)
  | rowHeader h => exact span_of_header h (Or.inr rfl)

theorem ReadFrom.suffix (h : p.ReadFrom s rest) : rest <:+ s := by
  cases h with
  | key h => exact leavesEnd_keySegment s _ rest h
  | value h => exact (leavesEnd_valueWithin _).located s _ rest h
  | header h => exact Statement.leavesEnd_read s _ rest h
  | rowHeader h => exact Statement.leavesEnd_read s _ rest h

/-- **What an entry is pointed at by**: its value as it is written, its first header, or its key. -/
def ofEntry (e : Key × Located Value) : Part :=
  match e.2.value with
  | .table .header _ | .array true _ => .header e.1 e.2.span
  | .table .implied _ | .table .dotted _ => .key e.1
  | _ => .value e.2

end Part

/-- Whether a value was written as a whole. -/
def Value.isWritten : Value → Bool
  | .table origin _ => origin = .inline
  | .array ofTables _ => !ofTables
  | _ => true

theorem Part.ofEntry_of_isWritten {e : Key × Located Value} (h : e.2.value.isWritten = true) :
    Part.ofEntry e = .value e.2 := by
  obtain ⟨k, span, v⟩ := e
  cases v with
  | text | integer | float | boolean | moment => rfl
  | array ofTables items =>
    cases ofTables with
    | false => rfl
    | true => cases h
  | table origin entries =>
    obtain rfl : origin = .inline := by simpa [Value.isWritten] using h
    rfl

/-! ## 2. Entries and values -/

/-- **An entry stands in a text**: its key does, and what it is pointed at by does, where its value
    is said to be. -/
structure EntryStands (source : List Char) (e : Key × Located Value) : Prop where
  key : (Part.key e.1).StandsIn source
  part : (Part.ofEntry e).StandsIn source
  span : (Part.ofEntry e).span = e.2.span

/-- **In every table of a value, at every depth, the entries stand in a text.** -/
inductive Value.Stands (source : List Char) : Value → Prop
  | atom {v : Value} (h : v.isAtom = true) : Stands source v
  | array (ofTables : Bool) {items : List (Located Value)}
      (h : ∀ i ∈ items, i.value.Stands source) : Stands source (.array ofTables items)
  | table (origin : Origin) {entries : List (Key × Located Value)}
      (h : ∀ e ∈ entries, EntryStands source e) (values : ∀ e ∈ entries, e.2.value.Stands source) :
      Stands source (.table origin entries)

/-- The same of the entries of a table. -/
def Entries.Stand (source : List Char) (es : Entries) : Prop :=
  ∀ e ∈ es, EntryStands source e ∧ e.2.value.Stands source

variable {source : List Char}

theorem Value.stands_table_iff {origin : Origin} {es : Entries} :
    (Value.table origin es).Stands source ↔ es.Stand source := by
  constructor
  · intro h
    cases h with
    | atom h => cases h
    | table _ h values => exact fun e he => ⟨h e he, values e he⟩
  · exact fun h => .table origin (fun e he => (h e he).1) fun e he => (h e he).2

theorem Value.stands_array_iff {ofTables : Bool} {items : List (Located Value)} :
    (Value.array ofTables items).Stands source ↔ ∀ i ∈ items, i.value.Stands source := by
  constructor
  · intro h
    cases h with
    | atom h => cases h
    | array _ h => exact h
  · exact .array ofTables

namespace EntryStands

variable {key : Key} {v : Located Value}

/-- A key that is set to a value as it is written. -/
theorem of_isWritten (hkey : (Part.key key).StandsIn source) (hv : (Part.value v).StandsIn source)
    (hwritten : v.value.isWritten = true) : EntryStands source (key, v) := by
  have hpart : Part.ofEntry (key, v) = .value v := Part.ofEntry_of_isWritten hwritten
  exact ⟨hkey, hpart ▸ hv, by rw [hpart]; rfl⟩

/-- A key that a longer key passes through. -/
theorem of_route (route : Route) (hkey : (Part.key key).StandsIn source) (es : Entries) :
    EntryStands source (key, ⟨key.span, .table route.origin es⟩) := by
  have hpart : Part.ofEntry (key, ⟨key.span, .table route.origin es⟩) = .key key := by
    cases route <;> rfl
  exact ⟨hkey, hpart ▸ hkey, by rw [hpart]; rfl⟩

end EntryStands

namespace Entries

variable {es : Entries} {name : String} {v old : Located Value}

theorem Stand.nil : Stand source [] := fun _ h => nomatch h

theorem Stand.find? (h : es.Stand source) (hv : es.find? name = some v) :
    v.value.Stands source := by
  obtain ⟨k, hmem, -⟩ := exists_key_of_find? hv
  exact (h _ hmem).2

theorem Stand.append_singleton (h : es.Stand source) {e : Key × Located Value}
    (he : EntryStands source e) (hv : e.2.value.Stands source) : Stand source (es ++ [e]) :=
  List.forall_mem_append.mpr ⟨h, List.forall_mem_singleton.mpr ⟨he, hv⟩⟩

/-- A value that is pointed at like the one that it replaces. -/
theorem Stand.modify (h : es.Stand source) (hfind : es.find? name = some old)
    (hpart : ∀ k, Part.ofEntry (k, v) = Part.ofEntry (k, old)) (hspan : v.span = old.span)
    (hv : v.value.Stands source) : Stand source (es.modify name v) := by
  intro e he
  obtain ⟨k, w⟩ := e
  rcases mem_modify he with hold | ⟨rfl, w', hw', hold⟩
  · exact h _ hold
  · obtain rfl := Option.some.inj (hfind.symm.trans hw')
    obtain ⟨hkey, hstands, hspan'⟩ := (h _ hold).1
    refine ⟨⟨hkey, ?_, ?_⟩, hv⟩
    · rw [hpart k]
      exact hstands
    · rw [hpart k, hspan', ← hspan]

theorem Stand.replace (h : es.Stand source) {key : Key} (he : EntryStands source (key, v))
    (hv : v.value.Stands source) : Stand source (es.replace key v) := by
  intro e hmem
  rcases mem_replace hmem with hold | rfl
  · exact h e hold
  · exact ⟨he, hv⟩

end Entries

/-! ## 3. Changes to a table -/

namespace Table

/-- A change leaves all parts of a table where they stand, and how the table came to be. -/
structure KeepsStanding (source : List Char) (f : Table → Option Table) : Prop where
  origin : ∀ t u, f t = some u → u.origin = t.origin
  entries : ∀ t u, f t = some u → t.entries.Stand source → u.entries.Stand source

variable {key : Key}

theorem keepsStanding_addNew? {v : Located Value} (hkey : EntryStands source (key, v))
    (hv : v.value.Stands source) : KeepsStanding source (addNew? key v) := by
  have hadded (t u : Table) (h : addNew? key v t = some u) : u = t.add key v := by
    unfold addNew? at h
    split at h
    · exact (Option.some.inj h).symm
    · cases h
  refine ⟨fun t u h => ?_, fun t u h ht => ?_⟩
  · rw [hadded t u h]
    rfl
  · rw [hadded t u h]
    exact ht.append_singleton hkey hv

variable {header : Span}

theorem keepsStanding_openTable (hkey : (Part.key key).StandsIn source)
    (hheader : (Part.header key header).StandsIn source) :
    KeepsStanding source (openTable key header) := by
  have hentry (es : Entries) : EntryStands source (key, ⟨header, .table .header es⟩) :=
    ⟨hkey, hheader, rfl⟩
  refine ⟨fun t u h => ?_, fun t u h ht => ?_⟩
  · unfold openTable at h
    split at h
    all_goals cases h
    all_goals rfl
  · unfold openTable at h
    split at h
    · cases h
      exact ht.append_singleton (hentry []) (Value.stands_table_iff.mpr .nil)
    · next hfound =>
      cases h
      exact ht.replace (hentry _)
        (Value.stands_table_iff.mpr (Value.stands_table_iff.mp (ht.find? hfound)))
    · cases h

theorem keepsStanding_pushTable (hkey : (Part.key key).StandsIn source)
    (hheader : (Part.header key header).StandsIn source) :
    KeepsStanding source (pushTable key header) := by
  have hnew : ∀ i ∈ [(⟨header, .table .header []⟩ : Located Value)], i.value.Stands source :=
    List.forall_mem_singleton.mpr (Value.stands_table_iff.mpr .nil)
  refine ⟨fun t u h => ?_, fun t u h ht => ?_⟩
  · unfold pushTable at h
    split at h
    all_goals cases h
    all_goals rfl
  · unfold pushTable at h
    split at h
    · cases h
      exact ht.append_singleton ⟨hkey, hheader, rfl⟩ (Value.stands_array_iff.mpr hnew)
    · next hfound =>
      cases h
      have hitems := Value.stands_array_iff.mp (ht.find? hfound)
      exact ht.modify hfound (fun _ => rfl) rfl
        (Value.stands_array_iff.mpr (List.forall_mem_append.mpr ⟨hitems, hnew⟩))
    · cases h

/-- **What is changed at the end of a path leaves all parts where they stand.** The tables that the
    path makes are pointed at by its segments. -/
theorem keepsStanding_under (route : Route) {f : Table → Option Table}
    (hf : KeepsStanding source f) {path : List Key}
    (hpath : ∀ k ∈ path, (Part.key k).StandsIn source) :
    KeepsStanding source (under route f path) := by
  induction path with
  | nil => exact hf
  | cons k path ih =>
    obtain ⟨hkey, hrest⟩ := List.forall_mem_cons.mp hpath
    obtain ⟨horigin, hentries⟩ := ih hrest
    refine ⟨fun t u h => ?_, fun t u h ht => ?_⟩
    · unfold under at h
      split at h
      · obtain ⟨w, -, rfl⟩ := Option.map_eq_some_iff.mp h
        rfl
      · split at h
        · obtain ⟨w, -, rfl⟩ := Option.map_eq_some_iff.mp h
          rfl
        · cases h
      · split at h
        · obtain ⟨w, -, rfl⟩ := Option.map_eq_some_iff.mp h
          rfl
        · cases h
      · cases h
    · unfold under at h
      split at h
      · obtain ⟨w, hw, rfl⟩ := Option.map_eq_some_iff.mp h
        have hnew : w.toValue = .table route.origin w.entries :=
          congrArg (Value.table · w.entries) (horigin _ _ hw)
        rw [hnew]
        exact ht.append_singleton (.of_route route hkey w.entries)
          (Value.stands_table_iff.mpr (hentries _ _ hw .nil))
      · next origin entries hfound =>
        split at h
        · next henters =>
          obtain ⟨w, hw, rfl⟩ := Option.map_eq_some_iff.mp h
          have hstand := Value.stands_table_iff.mp (ht.find? hfound)
          have hsame : w.origin = origin := horigin _ _ hw
          refine ht.modify hfound (fun k' => ?_) rfl
            (Value.stands_table_iff.mpr (hentries _ _ hw hstand))
          -- a table in braces is not entered, and every other is pointed at as before
          unfold toValue
          rw [hsame]
          cases origin with
          | inline => cases route <;> cases henters
          | header | implied | dotted => rfl
        · cases h
      · next items hfound =>
        split at h
        · next hlast =>
          obtain ⟨w, hw, rfl⟩ := Option.map_eq_some_iff.mp h
          have hitems := Value.stands_array_iff.mp (ht.find? hfound)
          have hstand := Value.stands_table_iff.mp (hitems _ (List.mem_of_getLast? hlast))
          have hbefore (i : Located Value) (hi : i ∈ items.dropLast) : i.value.Stands source :=
            hitems i (List.dropLast_subset _ hi)
          refine ht.modify hfound (fun _ => rfl) rfl
            (Value.stands_array_iff.mpr (List.forall_mem_append.mpr ⟨hbefore, ?_⟩))
          exact List.forall_mem_singleton.mpr
            (Value.stands_table_iff.mpr (hentries _ _ hw hstand))
        · cases h
      · cases h

end Table

/-! ## 4. Values as they are read -/

/-- **All segments of a key stand in a text.** -/
def PathStands (source : List Char) (key : List Key × Key) : Prop :=
  (∀ k ∈ key.1, (Part.key k).StandsIn source) ∧ (Part.key key.2).StandsIn source

/-- **A value stands in a text** as it is written, and all that is in it does. -/
structure ValueStands (source : List Char) (v : Located Value) : Prop where
  part : (Part.value v).StandsIn source
  inside : v.value.Stands source
  written : v.value.isWritten = true

theorem Table.keepsStanding_assign {path : List Key} {key : Key} {v : Located Value}
    (hkey : PathStands source (path, key)) (hv : ValueStands source v) :
    KeepsStanding source (assign path key v) := by
  have hnew := keepsStanding_addNew? (.of_isWritten hkey.2 hv.part hv.written) hv.inside
  refine keepsStanding_under .dotted ⟨fun t u h => ?_, fun t u h => ?_⟩ hkey.1
  · split at h
    · exact hnew.origin t u h
    · cases h
  · split at h
    · exact hnew.entries t u h
    · cases h

theorem pathStands_of_segments {n : Nat} {s rest : List Char} {key : List Key × Key}
    (hs : s <:+ source) (h : segments n s = some (.ok key, rest)) : PathStands source key := by
  induction n using Nat.strongRecOn generalizing s key with
  | ind n ih =>
    rcases segments_cases h with ⟨last, hsegment, hkey⟩ | ⟨first, r, u, m, more, hsegment, hpoint,
      hmore, hless, hkey⟩
    · obtain ⟨k, rfl, rfl⟩ := map_eq_ok_iff.mp hkey.symm
      exact ⟨List.forall_mem_nil _, s, rest, hs, .key hsegment⟩
    · obtain ⟨k, path, last, rfl, rfl, rfl⟩ := inFront_eq_ok hkey.symm
      have hnext := suffix_of_point (leavesEnd_keySegment s _ r hsegment) hpoint
      obtain ⟨hpath, hlast⟩ := ih m hless (hnext.trans hs) hmore
      exact ⟨List.forall_mem_cons.mpr ⟨⟨s, r, hs, .key hsegment⟩, hpath⟩, hlast⟩

theorem pathStands_of_dottedKey {s rest : List Char} {key : List Key × Key} (hs : s <:+ source)
    (h : dottedKey s = some (.ok key, rest)) : PathStands source key := by
  obtain ⟨⟨read, left⟩, hsegments, heq⟩ := Option.map_eq_some_iff.mp h
  obtain ⟨hkey, rfl⟩ := Prod.mk.inj heq
  cases read with
  | error e => cases hkey
  | ok k =>
    have hsame : checkDepth k = .ok key := hkey
    unfold checkDepth at hsame
    split at hsame
    · cases hsame
    · cases hsame
      exact pathStands_of_segments hs hsegments

/-- **A reader gives only values that stand in a text**, if it reads in it. -/
def GivesStanding (source : List Char) (r : Reader (Except Flaw Value)) : Prop :=
  ∀ s v rest, s <:+ source → r s = some (.ok v, rest) → v.Stands source ∧ v.isWritten = true

theorem givesStanding_textValue : GivesStanding source textValue := by
  intro s v rest _ h
  obtain ⟨p, -, hp⟩ := Option.map_eq_some_iff.mp h
  have htext := orMalformed_eq_ok_iff.mp (congrArg Prod.fst hp)
  obtain ⟨t, -, rfl⟩ := Option.map_eq_some_iff.mp htext
  exact ⟨.atom rfl, rfl⟩

theorem Value.isWritten_of_isAtom {v : Value} (h : v.isAtom = true) : v.isWritten = true := by
  cases v with
  | text | integer | float | boolean | moment => rfl
  | array | table => cases h

theorem givesStanding_bareValue : GivesStanding source bareValue := by
  intro s v rest _ h
  unfold bareValue at h
  split at h
  · cases h
  · next written _ _ _ =>
    have hatom := all_isAtom_bareValue? written
    have hbare := orMalformed_eq_ok_iff.mp (congrArg Prod.fst (Option.some.inj h))
    rw [hbare] at hatom
    exact ⟨.atom hatom, Value.isWritten_of_isAtom hatom⟩

section Brackets

variable {n : Nat} {s rest : List Char}

theorem valueStands_of_located (hitem : GivesStanding source (valueWithin n)) {v : Located Value}
    (hs : s <:+ source) (h : located (valueWithin n) s = some (.ok v, rest)) :
    ValueStands source v := by
  have hread := h
  rw [located_eq] at hread
  obtain ⟨⟨w, left⟩, hvalue, heq⟩ := Option.map_eq_some_iff.mp hread
  obtain ⟨w, rfl, rfl⟩ := map_eq_ok_iff.mp (congrArg Prod.fst heq)
  obtain ⟨hinside, hwritten⟩ := hitem s w left hs hvalue
  exact ⟨⟨s, rest, hs, .value h⟩, hinside, hwritten⟩

theorem stands_of_assignment (hitem : GivesStanding source (valueWithin n))
    {skip : List Char → List Char} (hskip : ∀ s, skip s <:+ s) {a : Assignment} (hs : s <:+ source)
    (h : assignment skip (valueWithin n) s = some (.ok a, rest)) :
    PathStands source a.key ∧ ValueStands source a.value := by
  obtain ⟨key, r, u, v, hkey, -, hu, hvalue, hpair⟩ := assignment_cases hskip h
  obtain ⟨rfl, rfl⟩ := pair?_eq_ok hpair.symm
  exact ⟨pathStands_of_dottedKey hs hkey, valueStands_of_located hitem (hu.trans hs) hvalue⟩

/-- One assignment in braces after the other leaves all parts where they stand. -/
theorem stands_of_inlineTable {parts : List (Except Flaw Assignment)}
    (hparts : ∀ a, Except.ok a ∈ parts → PathStands source a.key ∧ ValueStands source a.value)
    {v : Value} (h : inlineTable parts = .ok v) : v.Stands source ∧ v.isWritten = true := by
  obtain ⟨t, hfold, rfl⟩ := map_eq_ok_iff.mp h
  have htable : t.origin = .inline ∧ t.entries.Stand source := by
    refine foldlM_keeps (P := fun t : Table => t.origin = .inline ∧ t.entries.Stand source)
      (fun x hx t u hu ht => ?_) hfold ⟨rfl, .nil⟩
    cases x with
    | error e => cases hu
    | ok a =>
      obtain ⟨hkey, hvalue⟩ := hparts a hx
      have hassign := orMalformed_eq_ok_iff.mp hu
      have hkeeps := Table.keepsStanding_assign hkey hvalue
      exact ⟨(hkeeps.origin t u hassign).trans ht.1, hkeeps.entries t u hassign ht.2⟩
  refine ⟨Value.stands_table_iff.mpr htable.2, ?_⟩
  simp [Table.toValue, Value.isWritten, htable.1]

theorem givesStanding_bracketed (hitem : GivesStanding source (valueWithin n)) :
    GivesStanding source (bracketed (valueWithin n)) := by
  have hleaves := leavesEnd_valueWithin n
  intro s v rest hs h
  rcases bracketed_cases h with ⟨r, xs, rfl, hitems, hv⟩ | ⟨r, xs, rfl, hitems, hv⟩
  · obtain ⟨vs, hvs, rfl⟩ := map_eq_ok_iff.mp hv.symm
    refine ⟨.array false fun w hw => ?_, rfl⟩
    obtain ⟨t, u, ht, hread⟩ := (hitems.suffix hleaves.located).2 _ (mem_of_arrayOf hvs hw)
    exact (valueStands_of_located hitem ((ht.trans (List.suffix_cons _ r)).trans hs) hread).inside
  · refine stands_of_inlineTable (fun a ha => ?_) hv.symm
    obtain ⟨t, u, ht, hread⟩ := (hitems.suffix (hleaves.assignment skipFiller_suffix)).2 _ ha
    exact stands_of_assignment hitem skipFiller_suffix
      ((ht.trans (List.suffix_cons _ r)).trans hs) hread

end Brackets

theorem GivesStanding.orElse {r r' : Reader (Except Flaw Value)} (hr : GivesStanding source r)
    (hr' : GivesStanding source r') :
    GivesStanding source fun s => (r s).orElse fun _ => r' s := by
  intro s v rest hs h
  rcases eq_some_of_orElse h with h | h
  · exact hr s v rest hs h
  · exact hr' s v rest hs h

/-- **Every value that is read stands in the text**, to whatever depth it nests. -/
theorem givesStanding_valueWithin (n : Nat) : GivesStanding source (valueWithin n) := by
  induction n with
  | zero => exact givesStanding_textValue.orElse givesStanding_bareValue
  | succ n ih =>
    exact givesStanding_textValue.orElse
      ((givesStanding_bracketed ih).orElse givesStanding_bareValue)

/-! ## 5. Documents -/

/-- **A statement stands in a text**: its key, and its header or its value. -/
def Statement.Stands (source : List Char) : Statement → Prop
  | .header path key span | .rowHeader path key span =>
    PathStands source (path, key) ∧ (Part.header key span).StandsIn source
  | .assignment path key v => PathStands source (path, key) ∧ ValueStands source v

theorem Statement.stands_of_read {s rest : List Char} {x : Statement} (hs : s <:+ source)
    (h : Statement.read s = some (.ok x, rest)) : x.Stands source := by
  have hkeys {r left : List Char} {k : List Key × Key} (hr : r <:+ source)
      (hk : Statement.headerKey r = some (.ok k, left)) : PathStands source k := by
    obtain ⟨_, hkey, -⟩ := Statement.headerKey_cases hk
    exact pathStands_of_dottedKey ((skipBlanks_suffix r).trans hr) hkey
  rcases Statement.read_cases h with ⟨r, key, rfl, hkey, hx⟩ | ⟨r, key, rfl, hkey, hx⟩ | ⟨a, ha, hx⟩
  · obtain ⟨k, rfl, rfl⟩ := map_eq_ok_iff.mp hx.symm
    have hr : r <:+ source := List.IsSuffix.trans ⟨['[', '['], rfl⟩ hs
    exact ⟨hkeys hr hkey, _, rest, hs, .rowHeader h⟩
  · obtain ⟨k, rfl, rfl⟩ := map_eq_ok_iff.mp hx.symm
    have hr : r <:+ source := (List.suffix_cons _ r).trans hs
    exact ⟨hkeys hr hkey, _, rest, hs, .header h⟩
  · obtain ⟨a, rfl, rfl⟩ := map_eq_ok_iff.mp hx.symm
    exact stands_of_assignment (givesStanding_valueWithin deepest) skipBlanks_suffix hs ha

theorem stands_of_statementsWithin {n : Nat} {s : List Char} {xs : List (Except Flaw Statement)}
    (hs : s <:+ source) (h : statementsWithin n s = some xs) :
    ∀ x, Except.ok x ∈ xs → x.Stands source := by
  induction n generalizing s xs with
  | zero => cases h
  | succ n ih =>
    have hskip := (skipFiller_suffix s).trans hs
    unfold statementsWithin at h
    split at h
    · cases h
      exact fun _ hx => nomatch hx
    · split at h
      · cases h
      · next hread =>
        split at h
        · cases h
        · next hfinish =>
          obtain ⟨ys, hys, rfl⟩ := Option.map_eq_some_iff.mp h
          have hleft := (Statement.leavesEnd_read _ _ _ hread).trans hskip
          intro y hy
          rcases List.mem_cons.mp hy with rfl | hrest
          · exact Statement.stands_of_read hskip hread
          · exact ih ((finishLine?_suffix hfinish).trans hleft) hys y hrest

theorem stands_of_statements? {xs : List (Except Flaw Statement)} (h : statements? source = some xs) :
    ∀ x, Except.ok x ∈ xs → x.Stands source := by
  unfold statements? at h
  split at h
  · split at h
    · exact stands_of_statementsWithin (List.suffix_cons _ _) h
    · exact stands_of_statementsWithin (List.suffix_refl _) h
  · cases h
    exact fun _ hx => nomatch hx

/-- A document under construction all of whose parts stand in a text, and the segments of the path to
    its last table. What has no place in the table does not matter. -/
structure Draft.Stands (source : List Char) (d : Draft) : Prop where
  here : ∀ k ∈ d.here, (Part.key k).StandsIn source
  root : d.root.entries.Stand source

namespace Draft

variable {path : List Key} {key : Key} {span : Span} {root : Table} {d e : Draft}

theorem forall_mem_here (hkey : PathStands source (path, key)) :
    ∀ k ∈ path ++ [key], (Part.key k).StandsIn source :=
  List.forall_mem_append.mpr ⟨hkey.1, List.forall_mem_singleton.mpr hkey.2⟩

theorem stands_of_openHeader (hroot : root.entries.Stand source)
    (hkey : PathStands source (path, key)) (hheader : (Part.header key span).StandsIn source)
    (h : openHeader root path key span = .ok d) : d.Stands source := by
  have hkeeps := Table.keepsStanding_under .header
    (Table.keepsStanding_openTable hkey.2 hheader) hkey.1
  unfold openHeader at h
  split at h
  · next t ht =>
    cases h
    exact ⟨forall_mem_here hkey, hkeeps.entries _ _ ht hroot⟩
  · cases h

theorem stands_of_openRow (hroot : root.entries.Stand source)
    (hkey : PathStands source (path, key)) (hheader : (Part.header key span).StandsIn source)
    (h : openRow root path key span = .ok d) : d.Stands source := by
  have hkeeps := Table.keepsStanding_under .header
    (Table.keepsStanding_pushTable hkey.2 hheader) hkey.1
  have hsame : Table.KeepsStanding source some := by
    refine ⟨fun t u h => ?_, fun t u h ht => ?_⟩
    · cases h
      rfl
    · cases h
      exact ht
  unfold openRow at h
  split at h
  · next t ht =>
    cases h
    exact ⟨forall_mem_here hkey, hkeeps.entries _ _ ht hroot⟩
  · split at h
    · next t ht =>
      cases h
      exact ⟨forall_mem_here hkey,
        (Table.keepsStanding_under .header hsame hkey.1).entries _ _ ht hroot⟩
    · cases h

theorem Stands.assign (hd : d.Stands source) {v : Located Value}
    (hkey : PathStands source (path, key)) (hv : ValueStands source v)
    (h : d.assign path key v = .ok e) : e.Stands source := by
  have hkeeps := Table.keepsStanding_under .header (Table.keepsStanding_assign hkey hv) hd.here
  unfold Draft.assign at h
  split at h
  · obtain ⟨u, -, rfl⟩ := map_eq_ok_iff.mp h
    exact ⟨hd.here, hd.root⟩
  · obtain ⟨u, hu, rfl⟩ := map_eq_ok_iff.mp h
    exact ⟨hd.here, hkeeps.entries _ _ (orMalformed_eq_ok_iff.mp hu) hd.root⟩

/-- **A statement leaves all parts of a document where they stand.** -/
theorem Stands.step (hd : d.Stands source) {x : Statement} (hx : x.Stands source)
    (h : d.step x = .ok e) : e.Stands source := by
  cases x with
  | header path key span => exact stands_of_openHeader hd.root hx.1 hx.2 (eq_ok_of_endTable h)
  | rowHeader path key span => exact stands_of_openRow hd.root hx.1 hx.2 (eq_ok_of_endTable h)
  | assignment path key v => exact hd.assign hx.1 hx.2 h

end Draft

/-- **In the table of a text, at every depth, the entries stand in the text.** -/
theorem stands_of_readEntries {es : Entries} (h : readEntries source = .ok es) :
    es.Stand source := by
  obtain ⟨xs, d, hxs, hd, hes⟩ := readEntries_eq_ok h
  have hstatements := stands_of_statements? hxs
  have hdraft : d.Stands source := by
    refine foldlM_keeps (P := Draft.Stands source) (fun x hx b b' hb' hb => ?_) hd
      ⟨List.forall_mem_nil _, .nil⟩
    cases x with
    | error e => cases hb'
    | ok x => exact hb.step (hstatements x hx) hb'
  exact hes ▸ hdraft.root

end SuiteDriver.Toml

import SuiteDriver.Proofs.DistinctKeys

/-!
# Tables do not look at spans

A table is built from names and values, and where these are written has no say in it. So whatever
is done to every span may as well be done before the table is built: it is the same table then, with
the spans changed.

* `Value.mapSpans`, `HasSpans`: a value, and whatever else holds spans, with all of them changed;
* `Table.under_mapSpans`, `Table.assign_mapSpans`: changes to a table and changes to its spans;
* `arrayOf_map`, `inlineTable_map`: so it is for the values that parts make.
-/

namespace SuiteDriver.Toml

/-! ## 1. Changes to every span -/

/-- A key with its span changed. -/
def Key.mapSpan (f : Span → Span) (k : Key) : Key := { k with span := f k.span }

mutual
/-- **A value with every span in it changed.** -/
def Value.mapSpans (f : Span → Span) : Value → Value
  | .text s => .text s
  | .integer n => .integer n
  | .float x => .float x
  | .boolean b => .boolean b
  | .moment => .moment
  | .array ofTables items => .array ofTables (mapItems f items)
  | .table origin entries => .table origin (mapEntries f entries)

/-- Items with every span in them changed. -/
def mapItems (f : Span → Span) : List (Located Value) → List (Located Value)
  | [] => []
  | ⟨span, v⟩ :: items => ⟨f span, v.mapSpans f⟩ :: mapItems f items

/-- Entries with every span in them changed. -/
def mapEntries (f : Span → Span) : List (Key × Located Value) → List (Key × Located Value)
  | [] => []
  | (k, ⟨span, v⟩) :: es => (k.mapSpan f, ⟨f span, v.mapSpans f⟩) :: mapEntries f es
end

/-- A value in its place, with every span changed. -/
def Located.mapSpans (f : Span → Span) (v : Located Value) : Located Value :=
  ⟨f v.span, v.value.mapSpans f⟩

/-- A table with every span changed. -/
def Table.mapSpans (f : Span → Span) (t : Table) : Table := ⟨t.origin, mapEntries f t.entries⟩

/-- A key with a path, with every span changed. -/
def mapPath (f : Span → Span) (key : List Key × Key) : List Key × Key :=
  (key.1.map (Key.mapSpan f), key.2.mapSpan f)

/-- An assignment with every span changed. -/
def Assignment.mapSpans (f : Span → Span) (a : Assignment) : Assignment :=
  ⟨mapPath f a.key, a.value.mapSpans f⟩

variable {f : Span → Span}

theorem mapItems_eq_map (f : Span → Span) (items : List (Located Value)) :
    mapItems f items = items.map (Located.mapSpans f) := by
  induction items with
  | nil => rfl
  | cons i items ih =>
    rw [mapItems, ih]
    rfl

mutual
/-- One change after the other. -/
theorem Value.mapSpans_mapSpans (f g : Span → Span) :
    (v : Value) → (v.mapSpans f).mapSpans g = v.mapSpans (g ∘ f)
  | .text _ | .integer _ | .float _ | .boolean _ | .moment => rfl
  | .array ofTables items => by
    rw [Value.mapSpans, Value.mapSpans, Value.mapSpans, mapItems_mapItems f g items]
  | .table origin entries => by
    rw [Value.mapSpans, Value.mapSpans, Value.mapSpans, mapEntries_mapEntries f g entries]

theorem mapItems_mapItems (f g : Span → Span) :
    (items : List (Located Value)) → mapItems g (mapItems f items) = mapItems (g ∘ f) items
  | [] => rfl
  | ⟨span, v⟩ :: items => by
    rw [mapItems, mapItems, mapItems, Value.mapSpans_mapSpans f g v, mapItems_mapItems f g items]
    rfl

theorem mapEntries_mapEntries (f g : Span → Span) :
    (es : List (Key × Located Value)) → mapEntries g (mapEntries f es) = mapEntries (g ∘ f) es
  | [] => rfl
  | (k, ⟨span, v⟩) :: es => by
    rw [mapEntries, mapEntries, mapEntries, Value.mapSpans_mapSpans f g v,
      mapEntries_mapEntries f g es]
    rfl
end

theorem Located.mapSpans_mapSpans (f g : Span → Span) (v : Located Value) :
    (v.mapSpans f).mapSpans g = v.mapSpans (g ∘ f) :=
  congrArg (Located.mk (g (f v.span))) (v.value.mapSpans_mapSpans f g)

theorem mapPath_mapPath (f g : Span → Span) (key : List Key × Key) :
    mapPath g (mapPath f key) = mapPath (g ∘ f) key := by
  simp [mapPath, Key.mapSpan, Function.comp_def]

theorem Assignment.mapSpans_mapSpans (f g : Span → Span) (a : Assignment) :
    (a.mapSpans f).mapSpans g = a.mapSpans (g ∘ f) := by
  simp [Assignment.mapSpans, mapPath_mapPath, Located.mapSpans_mapSpans]

/-- What holds spans that can be changed. -/
class HasSpans (α : Type) where
  mapSpans : (Span → Span) → α → α
  mapSpans_mapSpans : ∀ f g a, mapSpans g (mapSpans f a) = mapSpans (g ∘ f) a

instance : HasSpans Value := ⟨Value.mapSpans, Value.mapSpans_mapSpans⟩

instance : HasSpans (Located Value) := ⟨Located.mapSpans, Located.mapSpans_mapSpans⟩

instance : HasSpans Key := ⟨Key.mapSpan, fun _ _ _ => rfl⟩

instance : HasSpans (List Key × Key) := ⟨mapPath, mapPath_mapPath⟩

instance : HasSpans Assignment := ⟨Assignment.mapSpans, Assignment.mapSpans_mapSpans⟩

/-- Results of several readings, with every span changed in those that are no flaws. -/
instance {α : Type} [HasSpans α] : HasSpans (List (Except Flaw α)) where
  mapSpans f xs := xs.map (Except.map (HasSpans.mapSpans f))
  mapSpans_mapSpans f g xs := by
    rw [List.map_map]
    congr 1
    funext x
    cases x with
    | error e => rfl
    | ok a => exact congrArg Except.ok (HasSpans.mapSpans_mapSpans f g a)

/-! ## 2. Entries -/

theorem find?_mapEntries (name : String) (es : Entries) :
    Entries.find? name (mapEntries f es) = (es.find? name).map (Located.mapSpans f) := by
  induction es with
  | nil => rfl
  | cons e es ih =>
    simp only [mapEntries, Entries.find?, Key.mapSpan]
    split
    · rfl
    · exact ih

theorem modify_mapEntries (name : String) (new : Located Value) (es : Entries) :
    Entries.modify name (new.mapSpans f) (mapEntries f es) = mapEntries f (es.modify name new) := by
  induction es with
  | nil => rfl
  | cons e es ih =>
    simp only [mapEntries, Entries.modify, Key.mapSpan]
    split
    · rfl
    · rw [ih]
      rfl

theorem mapEntries_append (es es' : Entries) :
    mapEntries f (es ++ es') = mapEntries f es ++ mapEntries f es' := by
  induction es with
  | nil => rfl
  | cons e es ih =>
    rw [List.cons_append, mapEntries, mapEntries, ih, List.cons_append]

/-! ## 3. Tables -/

namespace Table

theorem add_mapSpans (t : Table) (key : Key) (v : Located Value) :
    (t.mapSpans f).add (key.mapSpan f) (v.mapSpans f) = (t.add key v).mapSpans f := by
  simp only [add, mapSpans, mapEntries_append]
  rfl

theorem addNew?_mapSpans (key : Key) (v : Located Value) (t : Table) :
    (t.mapSpans f).addNew? (key.mapSpan f) (v.mapSpans f) =
      (t.addNew? key v).map (Table.mapSpans f) := by
  have hfind := find?_mapEntries (f := f) key.name t.entries
  unfold addNew?
  rw [show (t.mapSpans f).entries.find? (key.mapSpan f).name = _ from hfind]
  cases t.entries.find? key.name with
  | none => exact congrArg some (add_mapSpans t key v)
  | some => rfl

/-- **What does not look at spans at the end of a path does not look at them in the whole table.** -/
theorem under_mapSpans (route : Route) {g g' : Table → Option Table}
    (hg : ∀ t, g' (t.mapSpans f) = (g t).map (Table.mapSpans f)) (path : List Key) (t : Table) :
    under route g' (path.map (Key.mapSpan f)) (t.mapSpans f) =
      (under route g path t).map (Table.mapSpans f) := by
  induction path generalizing t with
  | nil => exact hg t
  | cons k path ih =>
    have hfind : (t.mapSpans f).entries.find? (k.mapSpan f).name =
        (t.entries.find? k.name).map (Located.mapSpans f) := find?_mapEntries k.name t.entries
    have hmodify (span : Span) (v : Value) :
        (t.mapSpans f).entries.modify (k.mapSpan f).name ⟨f span, v.mapSpans f⟩ =
          mapEntries f (t.entries.modify k.name ⟨span, v⟩) :=
      modify_mapEntries k.name ⟨span, v⟩ t.entries
    have hinner (origin : Origin) (entries : Entries) :
        under route g' (path.map (Key.mapSpan f)) ⟨origin, mapEntries f entries⟩ =
          (under route g path ⟨origin, entries⟩).map (Table.mapSpans f) := ih ⟨origin, entries⟩
    unfold under
    rw [List.map_cons]
    dsimp only
    rw [hfind]
    -- the path goes on in a new table, in a table, or in the last of a row of tables, or it ends
    cases t.entries.find? k.name with
    | none =>
      have hnew := hinner route.origin []
      rw [mapEntries] at hnew
      rw [Option.map_none]
      dsimp only
      rw [hnew, Option.map_map, Option.map_map]
      congr 1
      funext u
      exact add_mapSpans t k ⟨k.span, u.toValue⟩
    | some found =>
      obtain ⟨span, v⟩ := found
      cases v with
      | text | integer | float | boolean | moment => rfl
      | table origin entries =>
        simp only [Option.map_some, Located.mapSpans, Value.mapSpans]
        split
        · rw [hinner, Option.map_map, Option.map_map]
          congr 1
          funext u
          exact congrArg (Table.mk t.origin) (hmodify span u.toValue)
        · rfl
      | array ofTables items =>
        cases ofTables with
        | false => rfl
        | true =>
          simp only [Option.map_some, Located.mapSpans, Value.mapSpans, mapItems_eq_map,
            List.getLast?_map]
          cases hlast : items.getLast? with
          | none => rfl
          | some last =>
            obtain ⟨at_, w⟩ := last
            cases w with
            | text | integer | float | boolean | moment | array => rfl
            | table origin entries =>
              simp only [Option.map_some, Located.mapSpans, Value.mapSpans]
              rw [hinner, Option.map_map, Option.map_map]
              congr 1
              funext u
              have hrow := hmodify span
                (.array true (items.dropLast ++ [⟨at_, u.toValue⟩]))
              simp only [Value.mapSpans, mapItems_eq_map, List.map_append, List.map_dropLast] at hrow
              exact congrArg (Table.mk t.origin) hrow

/-- **An assignment goes to the same place, wherever it is written.** -/
theorem assign_mapSpans (path : List Key) (key : Key) (v : Located Value) (t : Table) :
    assign (path.map (Key.mapSpan f)) (key.mapSpan f) (v.mapSpans f) (t.mapSpans f) =
      (assign path key v t).map (Table.mapSpans f) := by
  refine under_mapSpans .dotted (fun u => ?_) path t
  have horigin : ((u.mapSpans f).origin = .dotted ↔ path.map (Key.mapSpan f) ≠ []) ↔
      (u.origin = .dotted ↔ path ≠ []) := by
    simp [mapSpans]
  simp only [horigin]
  split
  · exact addNew?_mapSpans key v u
  · rfl

end Table

/-! ## 4. Values of several parts -/

theorem arrayOf_map (items : List (Except Flaw (Located Value))) :
    arrayOf (items.map (Except.map (Located.mapSpans f))) = (arrayOf items).map (mapItems f) := by
  induction items with
  | nil => rfl
  | cons i items ih =>
    cases i with
    | error e => rfl
    | ok v =>
      show (arrayOf (items.map (Except.map (Located.mapSpans f)))).map (v.mapSpans f :: ·) =
        ((arrayOf items).map (v :: ·)).map (mapItems f)
      rw [ih]
      cases arrayOf items <;> rfl

theorem assignInline_map (t : Table) (a : Except Flaw Assignment) :
    assignInline (t.mapSpans f) (a.map (Assignment.mapSpans f)) =
      (assignInline t a).map (Table.mapSpans f) := by
  cases a with
  | error e => rfl
  | ok a =>
    show orMalformed (Table.assign (a.key.1.map (Key.mapSpan f)) (a.key.2.mapSpan f)
      (a.value.mapSpans f) (t.mapSpans f)) = (orMalformed (Table.assign _ _ _ t)).map _
    rw [Table.assign_mapSpans]
    cases Table.assign a.key.1 a.key.2 a.value t <;> rfl

theorem inlineTable_map (parts : List (Except Flaw Assignment)) :
    inlineTable (parts.map (Except.map (Assignment.mapSpans f))) =
      (inlineTable parts).map (Value.mapSpans f) := by
  have hfold (t : Table) :
      (parts.map (Except.map (Assignment.mapSpans f))).foldlM assignInline (t.mapSpans f) =
        (parts.foldlM assignInline t).map (Table.mapSpans f) := by
    induction parts generalizing t with
    | nil => rfl
    | cons a parts ih =>
      rw [List.map_cons, List.foldlM_cons, List.foldlM_cons, assignInline_map]
      cases assignInline t a with
      | error e => rfl
      | ok u => exact ih u
  have hparts : (parts.map (Except.map (Assignment.mapSpans f))).foldlM assignInline
      ⟨.inline, []⟩ = _ := hfold ⟨.inline, []⟩
  unfold inlineTable
  rw [hparts]
  cases parts.foldlM assignInline ⟨.inline, []⟩ <;> rfl

end SuiteDriver.Toml

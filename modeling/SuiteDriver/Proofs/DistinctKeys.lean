import SuiteDriver.Toml.Document

/-!
# Distinct keys

However a table is written, with headers, with longer keys, in braces or as a row of tables, no name
stands in it twice, and none does in the tables inside it. So the entries of a document are a map,
and the order in which they were written says nothing.

* `Value.Distinct`, `Entries.Distinct`: no name twice, at no depth;
* `Table.keeps_under`: what keeps this of the table at the end of a path keeps it of the whole;
* `givesDistinct_valueWithin`: every value that is read is such a value;
* `Draft.Distinct.step`: every statement keeps the names of a document apart;
* `distinct_of_readEntries`: so in the table of a text no name stands twice.
-/

namespace SuiteDriver.Toml

/-! ## 1. Values without a name twice -/

/-- Whether a value holds no other values. -/
def Value.isAtom : Value → Bool
  | .array _ _ | .table _ _ => false
  | _ => true

/-- The names in a table, in order. -/
def Entries.names (es : Entries) : List String := es.map fun e => e.1.name

/-- **In no table of a value, at no depth, a name stands twice.** -/
inductive Value.Distinct : Value → Prop
  | atom {v : Value} (h : v.isAtom = true) : Distinct v
  | array (ofTables : Bool) {items : List (Located Value)} (h : ∀ i ∈ items, i.value.Distinct) :
      Distinct (.array ofTables items)
  | table (origin : Origin) {entries : List (Key × Located Value)}
      (names : (Entries.names entries).Nodup) (values : ∀ e ∈ entries, e.2.value.Distinct) :
      Distinct (.table origin entries)

/-- The same of the entries of a table. -/
structure Entries.Distinct (es : Entries) : Prop where
  names : es.names.Nodup
  values : ∀ e ∈ es, e.2.value.Distinct

theorem Value.distinct_table_iff {origin : Origin} {es : Entries} :
    (Value.table origin es).Distinct ↔ es.Distinct := by
  constructor
  · intro h
    cases h with
    | atom h => cases h
    | table _ names values => exact ⟨names, values⟩
  · intro h
    exact .table origin h.names h.values

theorem Value.distinct_array_iff {ofTables : Bool} {items : List (Located Value)} :
    (Value.array ofTables items).Distinct ↔ ∀ i ∈ items, i.value.Distinct := by
  constructor
  · intro h
    cases h with
    | atom h => cases h
    | array _ h => exact h
  · exact .array ofTables

namespace Entries

variable {es : Entries} {name : String} {v : Located Value}

theorem find?_eq_none_iff : es.find? name = none ↔ name ∉ es.names := by
  induction es with
  | nil => simp [find?, names]
  | cons e es ih =>
    obtain ⟨k, w⟩ := e
    by_cases hk : k.name = name
    · simp [find?, names, hk]
    · have hne : name ≠ k.name := Ne.symm hk
      simp only [names] at ih
      simp [find?, names, hk, hne, ih]

theorem exists_key_of_find? (h : es.find? name = some v) : ∃ k, (k, v) ∈ es ∧ k.name = name := by
  induction es with
  | nil => cases h
  | cons e es ih =>
    obtain ⟨k, w⟩ := e
    rw [find?] at h
    split at h
    · next hk =>
      cases h
      exact ⟨k, List.mem_cons_self, hk⟩
    · obtain ⟨k', hmem, hname⟩ := ih h
      exact ⟨k', List.mem_cons_of_mem _ hmem, hname⟩

/-- Where no name stands twice, the value under a name is the one that is found. -/
theorem find?_of_mem (hes : es.names.Nodup) {k : Key} (h : (k, v) ∈ es) :
    es.find? k.name = some v := by
  induction es with
  | nil => cases h
  | cons e es ih =>
    obtain ⟨k', w⟩ := e
    obtain ⟨hnot, hrest⟩ := List.nodup_cons.mp hes
    rw [find?]
    rcases List.mem_cons.mp h with heq | hmem
    · cases heq
      rw [if_pos rfl]
    · have hne : k'.name ≠ k.name := by
        intro heq
        exact hnot (List.mem_map.mpr ⟨_, hmem, heq.symm⟩)
      rw [if_neg hne]
      exact ih hrest hmem

theorem names_modify (name : String) (new : Located Value) (es : Entries) :
    (es.modify name new).names = es.names := by
  induction es with
  | nil => rfl
  | cons e es ih =>
    obtain ⟨k, w⟩ := e
    rw [modify]
    split
    · rfl
    · exact congrArg (k.name :: ·) ih

theorem names_replace (key : Key) (new : Located Value) (es : Entries) :
    (es.replace key new).names = es.names := by
  induction es with
  | nil => rfl
  | cons e es ih =>
    obtain ⟨k, w⟩ := e
    rw [replace]
    split
    · next hk => exact congrArg (· :: Entries.names es) hk.symm
    · exact congrArg (k.name :: ·) ih

/-- A change to a value keeps its key. -/
theorem mem_modify {new : Located Value} {e : Key × Located Value} (h : e ∈ es.modify name new) :
    e ∈ es ∨ e.2 = new ∧ ∃ old, es.find? name = some old ∧ (e.1, old) ∈ es := by
  induction es with
  | nil => cases h
  | cons d es ih =>
    obtain ⟨k, w⟩ := d
    rw [modify] at h
    rw [find?]
    split at h
    · next hk =>
      rcases List.mem_cons.mp h with rfl | hmem
      · exact Or.inr ⟨rfl, w, if_pos hk, List.mem_cons_self⟩
      · exact Or.inl (List.mem_cons_of_mem _ hmem)
    · next hk =>
      rw [if_neg hk]
      rcases List.mem_cons.mp h with rfl | hmem
      · exact Or.inl List.mem_cons_self
      · rcases ih hmem with hold | ⟨hnew, old, hfind, hold⟩
        · exact Or.inl (List.mem_cons_of_mem _ hold)
        · exact Or.inr ⟨hnew, old, hfind, List.mem_cons_of_mem _ hold⟩

theorem mem_replace {key : Key} {new : Located Value} {e : Key × Located Value}
    (h : e ∈ es.replace key new) : e ∈ es ∨ e = (key, new) := by
  induction es with
  | nil => cases h
  | cons d es ih =>
    obtain ⟨k, w⟩ := d
    rw [replace] at h
    split at h
    · rcases List.mem_cons.mp h with rfl | hmem
      · exact Or.inr rfl
      · exact Or.inl (List.mem_cons_of_mem _ hmem)
    · rcases List.mem_cons.mp h with rfl | hmem
      · exact Or.inl List.mem_cons_self
      · exact (ih hmem).imp_left (List.mem_cons_of_mem _)

namespace Distinct

theorem nil : Distinct [] := ⟨List.nodup_nil, fun _ h => nomatch h⟩

theorem find? (h : es.Distinct) (hv : es.find? name = some v) : v.value.Distinct := by
  obtain ⟨k, hmem, -⟩ := exists_key_of_find? hv
  exact h.values _ hmem

/-- A new name at the end. -/
theorem append_singleton (h : es.Distinct) {key : Key} (hkey : es.find? key.name = none)
    (hv : v.value.Distinct) : Entries.Distinct (es ++ [(key, v)]) where
  names := by
    have hfree : key.name ∉ es.names := find?_eq_none_iff.mp hkey
    have happend : Entries.names (es ++ [(key, v)]) = es.names ++ [key.name] := List.map_append
    rw [happend, List.nodup_append]
    refine ⟨h.names, List.pairwise_singleton _ _, fun a ha b hb => ?_⟩
    rw [List.mem_singleton.mp hb]
    exact ne_of_mem_of_not_mem ha hfree
  values := List.forall_mem_append.mpr ⟨h.values, List.forall_mem_singleton.mpr hv⟩

theorem modify (h : es.Distinct) (hv : v.value.Distinct) : (es.modify name v).Distinct where
  names := by
    rw [names_modify]
    exact h.names
  values e he := by
    rcases mem_modify he with hold | ⟨hnew, -⟩
    · exact h.values e hold
    · rw [hnew]
      exact hv

theorem replace (h : es.Distinct) {key : Key} (hv : v.value.Distinct) :
    (es.replace key v).Distinct where
  names := by
    rw [names_replace]
    exact h.names
  values e he := by
    rcases mem_replace he with hold | hnew
    · exact h.values e hold
    · rw [hnew]
      exact hv

end Distinct

end Entries

/-! ## 2. Changes to a table -/

namespace Table

/-- A change to a table keeps its names apart. -/
def Keeps (f : Table → Option Table) : Prop :=
  ∀ t u, f t = some u → t.entries.Distinct → u.entries.Distinct

theorem keeps_addNew? (key : Key) {v : Located Value} (hv : v.value.Distinct) :
    Keeps (addNew? key v) := by
  intro t u h ht
  unfold addNew? at h
  split at h
  · next hfree =>
    cases h
    exact ht.append_singleton hfree hv
  · cases h

theorem keeps_openTable (key : Key) (header : Span) : Keeps (openTable key header) := by
  intro t u h ht
  unfold openTable at h
  split at h
  · next hfree =>
    cases h
    exact ht.append_singleton hfree (Value.distinct_table_iff.mpr .nil)
  · next hfound =>
    cases h
    -- the table keeps the entries that longer headers gave it
    have hentries := Value.distinct_table_iff.mp (ht.find? hfound)
    exact ht.replace (Value.distinct_table_iff.mpr hentries)
  · cases h

theorem keeps_pushTable (key : Key) (header : Span) : Keeps (pushTable key header) := by
  have hnew : ∀ i ∈ [(⟨header, .table .header []⟩ : Located Value)], i.value.Distinct :=
    List.forall_mem_singleton.mpr (Value.distinct_table_iff.mpr .nil)
  intro t u h ht
  unfold pushTable at h
  split at h
  · next hfree =>
    cases h
    exact ht.append_singleton hfree (Value.distinct_array_iff.mpr hnew)
  · next hfound =>
    cases h
    have hitems := Value.distinct_array_iff.mp (ht.find? hfound)
    exact ht.modify (Value.distinct_array_iff.mpr (List.forall_mem_append.mpr ⟨hitems, hnew⟩))
  · cases h

/-- **What keeps the names apart at the end of a path keeps them apart in the whole table.** -/
theorem keeps_under (route : Route) {f : Table → Option Table} (hf : Keeps f) (path : List Key) :
    Keeps (under route f path) := by
  induction path with
  | nil => exact hf
  | cons k path ih =>
    intro t u h ht
    unfold under at h
    split at h
    · next hfree =>
      obtain ⟨w, hw, rfl⟩ := Option.map_eq_some_iff.mp h
      exact ht.append_singleton hfree (Value.distinct_table_iff.mpr (ih _ _ hw .nil))
    · next hfound =>
      have hentries := Value.distinct_table_iff.mp (ht.find? hfound)
      split at h
      · obtain ⟨w, hw, rfl⟩ := Option.map_eq_some_iff.mp h
        exact ht.modify (Value.distinct_table_iff.mpr (ih _ _ hw hentries))
      · cases h
    · next items hfound =>
      have hitems := Value.distinct_array_iff.mp (ht.find? hfound)
      split at h
      · next hlast =>
        have hentries := Value.distinct_table_iff.mp (hitems _ (List.mem_of_getLast? hlast))
        obtain ⟨w, hw, rfl⟩ := Option.map_eq_some_iff.mp h
        -- only the last table of the row is another one
        have hbefore (i : Located Value) (hi : i ∈ items.dropLast) : i.value.Distinct :=
          hitems i (List.dropLast_subset _ hi)
        refine ht.modify (Value.distinct_array_iff.mpr (List.forall_mem_append.mpr ⟨hbefore, ?_⟩))
        exact List.forall_mem_singleton.mpr (Value.distinct_table_iff.mpr (ih _ _ hw hentries))
      · cases h
    · cases h

theorem keeps_assign (path : List Key) (key : Key) {v : Located Value} (hv : v.value.Distinct) :
    Keeps (assign path key v) := by
  refine keeps_under .dotted (fun t u h ht => ?_) path
  split at h
  · exact keeps_addNew? key hv t u h ht
  · cases h

end Table

/-! ## 3. Values as they are read -/

theorem orMalformed_eq_ok_iff {α : Type} {o : Option α} {a : α} :
    orMalformed o = .ok a ↔ o = some a := by
  cases o with
  | none => exact ⟨nofun, nofun⟩
  | some b => exact ⟨fun h => by cases h; rfl, fun h => by cases h; rfl⟩

theorem map_eq_ok_iff {α β : Type} {x : Except Flaw α} {f : α → β} {b : β} :
    x.map f = .ok b ↔ ∃ a, x = .ok a ∧ f a = b := by
  cases x with
  | error e => exact ⟨nofun, fun ⟨_, h, _⟩ => nomatch h⟩
  | ok a =>
    constructor
    · exact fun h => ⟨a, rfl, Except.ok.inj h⟩
    · rintro ⟨_, h, rfl⟩
      cases h
      rfl

theorem map_eq_error_iff {α β : Type} {x : Except Flaw α} {f : α → β} {flaw : Flaw} :
    x.map f = .error flaw ↔ x = .error flaw := by
  cases x with
  | error e => simp [Except.map]
  | ok a => exact ⟨nofun, nofun⟩

/-- What every step of a fold keeps holds in the end. -/
theorem foldlM_keeps {α β : Type} {P : β → Prop} {f : β → α → Except Flaw β} {xs : List α}
    (hf : ∀ x ∈ xs, ∀ b b', f b x = .ok b' → P b → P b') {b b' : β}
    (h : xs.foldlM f b = .ok b') (hb : P b) : P b' := by
  induction xs generalizing b with
  | nil =>
    cases h
    exact hb
  | cons x xs ih =>
    rw [List.foldlM_cons] at h
    cases hx : f b x with
    | error e =>
      rw [hx] at h
      cases h
    | ok c =>
      rw [hx] at h
      have hc : P c := hf x List.mem_cons_self b c hx hb
      exact ih (fun y hy => hf y (List.mem_cons_of_mem _ hy)) h hc

theorem all_isAtom_numberOrMoment? (negative : Bool) (written unsigned : List Char) :
    (numberOrMoment? negative written unsigned).all Value.isAtom = true := by
  unfold numberOrMoment?
  dsimp only
  split
  · split <;> rfl
  · split
    · split <;> rfl
    · split
      · rfl
      · split
        · split
          · cases decimal? negative unsigned <;> rfl
          · rfl
        · split <;> rfl

theorem all_isAtom_signedValue? (negative : Bool) (written unsigned : List Char) :
    (signedValue? negative written unsigned).all Value.isAtom = true := by
  unfold signedValue?
  split
  · rfl
  · split
    · rfl
    · exact all_isAtom_numberOrMoment? ..

theorem all_isAtom_basedValue? (base : Nat) (digits : List Char) :
    (basedValue? base digits).all Value.isAtom = true := by
  unfold basedValue?
  split <;> rfl

/-- What is written without quotes and brackets holds no other values. -/
theorem all_isAtom_bareValue? (s : List Char) : (bareValue? s).all Value.isAtom = true := by
  unfold bareValue?
  split
  · rfl
  · split
    · rfl
    · split
      · exact all_isAtom_basedValue? ..
      · exact all_isAtom_basedValue? ..
      · exact all_isAtom_basedValue? ..
      · exact all_isAtom_signedValue? ..
      · exact all_isAtom_signedValue? ..
      · exact all_isAtom_signedValue? ..

/-- A reader gives no value in which a name stands twice. -/
def GivesDistinct (r : Reader (Except Flaw Value)) : Prop :=
  ∀ s v rest, r s = some (.ok v, rest) → v.Distinct

/-- What one of two readers gives. -/
theorem eq_some_of_orElse {α : Type} {r r' : Reader α} {s : List Char} {p : α × List Char}
    (h : ((r s).orElse fun _ => r' s) = some p) : r s = some p ∨ r' s = some p := by
  cases hrs : r s with
  | none =>
    rw [hrs] at h
    exact Or.inr h
  | some q =>
    rw [hrs] at h
    exact Or.inl h

theorem GivesDistinct.orElse {r r' : Reader (Except Flaw Value)} (hr : GivesDistinct r)
    (hr' : GivesDistinct r') : GivesDistinct fun s => (r s).orElse fun _ => r' s := by
  intro s v rest h
  rcases eq_some_of_orElse h with h | h
  · exact hr s v rest h
  · exact hr' s v rest h

theorem givesDistinct_textValue : GivesDistinct textValue := by
  intro s v rest h
  obtain ⟨p, -, hp⟩ := Option.map_eq_some_iff.mp h
  have htext := orMalformed_eq_ok_iff.mp (congrArg Prod.fst hp)
  obtain ⟨t, -, rfl⟩ := Option.map_eq_some_iff.mp htext
  exact .atom rfl

theorem givesDistinct_bareValue : GivesDistinct bareValue := by
  intro s v rest h
  unfold bareValue at h
  split at h
  · cases h
  · next written _ _ _ =>
    have hatom := all_isAtom_bareValue? written
    have hbare := orMalformed_eq_ok_iff.mp (congrArg Prod.fst (Option.some.inj h))
    rw [hbare] at hatom
    exact .atom hatom

section Brackets

variable {item : Reader (Except Flaw Value)}

theorem distinct_of_located (hitem : GivesDistinct item) {s rest : List Char} {v : Located Value}
    (h : located item s = some (.ok v, rest)) : v.value.Distinct := by
  obtain ⟨p, hp, heq⟩ := Option.map_eq_some_iff.mp h
  obtain ⟨w, hw, rfl⟩ := map_eq_ok_iff.mp (congrArg Prod.fst heq)
  unfold Reader.spanned at hp
  split at hp
  · next t ht =>
    cases hp
    dsimp only at hw
    subst hw
    exact hitem s w t ht
  · cases hp

theorem distinct_of_pair? {key : Except Flaw (List Key × Key)} {v : Except Flaw (Located Value)}
    (hv : ∀ w, v = .ok w → w.value.Distinct) {a : Assignment}
    (h : Assignment.pair? key v = .ok a) : a.value.value.Distinct := by
  unfold Assignment.pair? at h
  split at h
  · next w =>
    cases h
    exact hv w rfl
  · cases h
  · cases h

theorem distinct_of_assignment (hitem : GivesDistinct item) {skip : List Char → List Char}
    {s rest : List Char} {a : Assignment}
    (h : assignment skip item s = some (.ok a, rest)) : a.value.value.Distinct := by
  unfold assignment at h
  split at h
  · cases h
  · split at h
    · obtain ⟨p, hp, heq⟩ := Option.map_eq_some_iff.mp h
      obtain ⟨w, t⟩ := p
      have hpair := congrArg Prod.fst heq
      refine distinct_of_pair? (fun v hv => ?_) hpair
      dsimp only at hv
      subst hv
      exact distinct_of_located hitem hp
    · cases h

/-- What stands between a pair of marks was read item by item. -/
theorem exists_read_of_itemsUntil {α : Type} {close : Char} {item : Reader α} {n : Nat}
    {s rest : List Char} {xs : List α} (h : itemsUntil close item n s = some (xs, rest)) :
    ∀ x ∈ xs, ∃ t u, item t = some (x, u) := by
  induction n generalizing s xs with
  | zero => cases h
  | succ n ih =>
    unfold itemsUntil at h
    split at h
    · cases h
    · split at h
      · cases h
        exact List.forall_mem_nil _
      · split at h
        · cases h
        · next a t ha =>
          have hfirst : ∃ t u, item t = some (a, u) := ⟨_, _, ha⟩
          split at h
          · cases h
          · split at h
            · cases h
              exact List.forall_mem_singleton.mpr hfirst
            · split at h
              · obtain ⟨p, hp, heq⟩ := Option.map_eq_some_iff.mp h
                cases heq
                exact List.forall_mem_cons.mpr ⟨hfirst, ih hp⟩
              · cases h

/-- The values of a list are its items. -/
theorem mem_of_arrayOf {items : List (Except Flaw (Located Value))} {vs : List (Located Value)}
    (h : arrayOf items = .ok vs) {v : Located Value} (hv : v ∈ vs) : Except.ok v ∈ items := by
  induction items generalizing vs with
  | nil =>
    cases h
    cases hv
  | cons x items ih =>
    cases x with
    | error e => cases h
    | ok w =>
      rw [arrayOf] at h
      obtain ⟨ws, hrest, rfl⟩ := map_eq_ok_iff.mp h
      rcases List.mem_cons.mp hv with rfl | hmem
      · exact List.mem_cons_self
      · exact List.mem_cons_of_mem _ (ih hrest hmem)

/-- One assignment in braces after the other goes to a name that is still free. -/
theorem distinct_of_inlineTable {parts : List (Except Flaw Assignment)}
    (hparts : ∀ a, Except.ok a ∈ parts → a.value.value.Distinct) {v : Value}
    (h : inlineTable parts = .ok v) : v.Distinct := by
  obtain ⟨t, hfold, rfl⟩ := map_eq_ok_iff.mp h
  refine Value.distinct_table_iff.mpr
    (foldlM_keeps (P := fun t : Table => t.entries.Distinct) (fun x hx t u hu ht => ?_) hfold .nil)
  cases x with
  | error e => cases hu
  | ok a =>
    have hassign := orMalformed_eq_ok_iff.mp hu
    exact Table.keeps_assign _ _ (hparts a hx) t u hassign ht

theorem givesDistinct_bracketed (hitem : GivesDistinct item) : GivesDistinct (bracketed item) := by
  intro s v rest h
  cases s with
  | nil => cases h
  | cons c r =>
    rw [bracketed] at h
    split at h
    · obtain ⟨p, hp, heq⟩ := Option.map_eq_some_iff.mp h
      have hread := exists_read_of_itemsUntil hp
      obtain ⟨vs, hvs, rfl⟩ := map_eq_ok_iff.mp (congrArg Prod.fst heq)
      refine .array false fun w hw => ?_
      obtain ⟨t, u, ht⟩ := hread _ (mem_of_arrayOf hvs hw)
      exact distinct_of_located hitem ht
    · split at h
      · obtain ⟨p, hp, heq⟩ := Option.map_eq_some_iff.mp h
        have hread := exists_read_of_itemsUntil hp
        refine distinct_of_inlineTable (fun a ha => ?_) (congrArg Prod.fst heq)
        obtain ⟨t, u, ht⟩ := hread _ ha
        exact distinct_of_assignment hitem ht
      · cases h

end Brackets

/-- **In no value that is read, to whatever depth, a name stands twice.** -/
theorem givesDistinct_valueWithin (n : Nat) : GivesDistinct (valueWithin n) := by
  have hbare := givesDistinct_bareValue
  have htext := givesDistinct_textValue
  induction n with
  | zero => exact htext.orElse hbare
  | succ n ih => exact htext.orElse ((givesDistinct_bracketed ih).orElse hbare)

/-! ## 4. Documents -/

/-- An assignment of a value in which no name stands twice; a header sets nothing. -/
def Statement.Distinct : Statement → Prop
  | .assignment _ _ v => v.value.Distinct
  | _ => True

theorem Statement.distinct_of_read {s rest : List Char} {x : Statement}
    (h : Statement.read s = some (.ok x, rest)) : x.Distinct := by
  unfold Statement.read at h
  split at h
  · split at h
    · obtain ⟨k, -, rfl⟩ := map_eq_ok_iff.mp (congrArg Prod.fst (Option.some.inj h))
      trivial
    · cases h
  · obtain ⟨p, -, heq⟩ := Option.map_eq_some_iff.mp h
    obtain ⟨k, -, rfl⟩ := map_eq_ok_iff.mp (congrArg Prod.fst heq)
    trivial
  · obtain ⟨⟨read, t⟩, hp, heq⟩ := Option.map_eq_some_iff.mp h
    obtain ⟨a, rfl, rfl⟩ := map_eq_ok_iff.mp (congrArg Prod.fst heq)
    exact distinct_of_assignment (givesDistinct_valueWithin deepest) hp

theorem distinct_of_statementsWithin {n : Nat} {s : List Char} {xs : List (Except Flaw Statement)}
    (h : statementsWithin n s = some xs) : ∀ x, Except.ok x ∈ xs → x.Distinct := by
  induction n generalizing s xs with
  | zero => cases h
  | succ n ih =>
    unfold statementsWithin at h
    split at h
    · cases h
      exact fun _ hx => nomatch hx
    · split at h
      · cases h
      · next x r hread =>
        split at h
        · cases h
        · obtain ⟨ys, hys, rfl⟩ := Option.map_eq_some_iff.mp h
          intro y hy
          rcases List.mem_cons.mp hy with rfl | hrest
          · exact Statement.distinct_of_read hread
          · exact ih hys y hrest

theorem distinct_of_statements? {s : List Char} {xs : List (Except Flaw Statement)}
    (h : statements? s = some xs) : ∀ x, Except.ok x ∈ xs → x.Distinct := by
  unfold statements? at h
  split at h
  · split at h
    · exact distinct_of_statementsWithin h
    · exact distinct_of_statementsWithin h
  · cases h
    exact fun _ hx => nomatch hx

/-- A document under construction in which no name stands twice. -/
structure Draft.Distinct (d : Draft) : Prop where
  root : d.root.entries.Distinct
  misplaced : ∀ t, d.misplaced = some t → t.entries.Distinct

namespace Draft

theorem distinct_of_openHeader {root : Table} (hroot : root.entries.Distinct) {path : List Key}
    {key : Key} {span : Span} {d : Draft} (h : openHeader root path key span = .ok d) :
    d.Distinct := by
  unfold openHeader at h
  split at h
  · next t ht =>
    cases h
    exact ⟨Table.keeps_under _ (Table.keeps_openTable key span) path _ _ ht hroot, nofun⟩
  · cases h

theorem distinct_of_openRow {root : Table} (hroot : root.entries.Distinct) {path : List Key}
    {key : Key} {span : Span} {d : Draft} (h : openRow root path key span = .ok d) :
    d.Distinct := by
  have hsame : Table.Keeps some := by
    intro t u h ht
    cases h
    exact ht
  unfold openRow at h
  split at h
  · next t ht =>
    cases h
    exact ⟨Table.keeps_under _ (Table.keeps_pushTable key span) path _ _ ht hroot, nofun⟩
  · split at h
    · next t ht =>
      cases h
      refine ⟨Table.keeps_under _ hsame path _ _ ht hroot, fun u hu => ?_⟩
      cases hu
      exact .nil
    · cases h

theorem Distinct.assign {d e : Draft} (hd : d.Distinct) {path : List Key} {key : Key}
    {v : Located Value} (hv : v.value.Distinct) (h : d.assign path key v = .ok e) :
    e.Distinct := by
  have hassign := Table.keeps_assign path key hv
  unfold Draft.assign at h
  split at h
  · next t ht =>
    obtain ⟨u, hu, rfl⟩ := map_eq_ok_iff.mp h
    refine ⟨hd.root, fun w hw => ?_⟩
    cases hw
    exact hassign t u (orMalformed_eq_ok_iff.mp hu) (hd.misplaced t ht)
  · next hnone =>
    obtain ⟨u, hu, rfl⟩ := map_eq_ok_iff.mp h
    refine ⟨Table.keeps_under _ hassign _ _ _ (orMalformed_eq_ok_iff.mp hu) hd.root, fun w hw => ?_⟩
    cases hnone.symm.trans hw

/-- A header is opened where the table before it has a place. -/
theorem eq_ok_of_endTable {α : Type} {d : Draft} {f : Table → Except Flaw α} {a : α}
    (h : d.endTable.bind f = .ok a) : f d.root = .ok a := by
  unfold endTable at h
  split at h
  · cases h
  · exact h

/-- **A statement keeps the names of a document apart.** -/
theorem Distinct.step {d e : Draft} (hd : d.Distinct) {x : Statement} (hx : x.Distinct)
    (h : d.step x = .ok e) : e.Distinct := by
  cases x with
  | header path key span => exact distinct_of_openHeader hd.root (eq_ok_of_endTable h)
  | rowHeader path key span => exact distinct_of_openRow hd.root (eq_ok_of_endTable h)
  | assignment path key v => exact hd.assign hx h

end Draft

/-- **The table of a text is what its statements build**, one after the other. -/
theorem readEntries_eq_ok {s : List Char} {es : Entries} (h : readEntries s = .ok es) :
    ∃ xs d, statements? s = some xs ∧
      xs.foldlM (fun d x => x.bind (Draft.step d)) Draft.empty = .ok d ∧ d.root.entries = es := by
  unfold readEntries at h
  split at h
  · next xs hxs =>
    unfold build at h
    split at h
    · next d hd =>
      unfold Draft.endTable at h
      split at h
      · cases h
      · exact ⟨xs, d, hxs, hd, Except.ok.inj h⟩
    · cases h
  · cases h

/-- **In the table of a text, at no depth, a name stands twice.** -/
theorem distinct_of_readEntries {s : List Char} {es : Entries} (h : readEntries s = .ok es) :
    es.Distinct := by
  obtain ⟨xs, d, hxs, hd, rfl⟩ := readEntries_eq_ok h
  have hstatements := distinct_of_statements? hxs
  have hdraft : d.Distinct := by
    refine foldlM_keeps (P := Draft.Distinct) (fun x hx b b' hb' hb => ?_) hd ⟨.nil, nofun⟩
    cases x with
    | error e => cases hb'
    | ok x => exact hb.step (hstatements x hx) hb'
  exact hdraft.root

end SuiteDriver.Toml

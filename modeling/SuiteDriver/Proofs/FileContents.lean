import SuiteDriver.FileSystem

/-!
# What the content of a file decides

Two trees that hold the same but for the content of one file cannot be told apart by any walk, nor
by any question but one: only to read that very file shows a difference.

* `FileSystem.SameBut`: the trees, and the location of the file;
* `FileSystem.SameBut.spot`: every path ends at the same place in both;
* `FileSystem.SameBut.read_or`: what is read is the same, or it is that file;
* `FileSystem.SameBut.touch`, `FileSystem.SameBut.remove`: what is changed in both alike leaves such
  trees again.
-/

namespace SuiteDriver

namespace FileSystem

/-! ## 1. Reading what was written -/

theorem fromUTF8?_toUTF8 (text : String) : String.fromUTF8? text.toUTF8 = some text :=
  dif_pos text.isValidUTF8

/-- A file that holds a text is read as that text. -/
theorem read_of_text {fs : FileSystem} {path text : String} {loc : Location}
    (hloc : fs.locate path = .ok loc) (hfile : fs.lookup loc = some (.file text.toUTF8)) :
    fs.read path = .ok text := by
  unfold read
  rw [hloc]
  simp only [hfile, fromUTF8?_toUTF8]

/-! ## 2. Trees that differ in one file -/

/-- **Two trees hold the same but for the content of one file.** -/
structure SameBut (loc : Location) (a b : FileSystem) : Prop where
  here : a.here = b.here
  accountHome : a.accountHome = b.accountHome
  nodes : ∀ l, a.lookup l = b.lookup l ∨
    l = loc ∧ ∃ x y, a.lookup l = some (.file x) ∧ b.lookup l = some (.file y)

namespace SameBut

variable {loc : Location} {a b : FileSystem}

theorem start (h : SameBut loc a b) (path : String) : a.start path = b.start path := by
  unfold FileSystem.start
  rw [h.here]

/-- A walk looks at names, directories and links, and never into a file. -/
theorem walkNames (h : SameBut loc a b) (aim : Aim)
    (jump : Location → List String → Except OsError Spot) (l : Location) (names : List String) :
    a.walkNames aim jump l names = b.walkNames aim jump l names := by
  induction names generalizing l with
  | nil => rfl
  | cons name rest ih =>
    unfold FileSystem.walkNames
    rcases h.nodes (l ++ [name]) with hsame | ⟨-, x, y, hx, hy⟩
    · rw [hsame]
      simp only [ih]
    · rw [hx, hy]
      simp only [ih]

theorem walk (h : SameBut loc a b) (aim : Aim) (links : Nat) : a.walk aim links = b.walk aim links := by
  induction links with
  | zero =>
    funext l names
    exact h.walkNames ..
  | succ links ih =>
    funext l names
    unfold FileSystem.walk
    rw [ih]
    exact h.walkNames ..

/-- **Every path ends at the same place in both.** -/
theorem spot (h : SameBut loc a b) (aim : Aim) (path : String) : a.spot aim path = b.spot aim path := by
  unfold FileSystem.spot
  rw [h.walk, h.start]

theorem shortSpot (h : SameBut loc a b) (aim : Aim) (path : String) :
    a.shortSpot aim path = b.shortSpot aim path := by
  unfold FileSystem.shortSpot
  rw [h.spot]

theorem locate (h : SameBut loc a b) (path : String) : a.locate path = b.locate path := by
  unfold FileSystem.locate
  rw [h.shortSpot]

theorem resolve (h : SameBut loc a b) (path : String) : a.resolve path = b.resolve path := by
  unfold FileSystem.resolve
  rw [h.spot]

/-- What a path names is the same in both, or a file in both. -/
theorem node?_or (h : SameBut loc a b) (path : String) :
    a.node? path = b.node? path ∨
      ∃ x y, a.node? path = some (.file x) ∧ b.node? path = some (.file y) := by
  unfold node?
  rw [h.locate]
  cases b.locate path with
  | error e => exact Or.inl rfl
  | ok l =>
    rcases h.nodes l with hsame | ⟨-, hfiles⟩
    · exact Or.inl hsame
    · exact Or.inr hfiles

theorem hasEntry (h : SameBut loc a b) (path : String) : a.hasEntry path = b.hasEntry path := by
  unfold FileSystem.hasEntry
  rcases h.node?_or path with hsame | ⟨x, y, hx, hy⟩
  · rw [hsame]
  · rw [hx, hy]
    rfl

theorem isDirectory (h : SameBut loc a b) (path : String) :
    a.isDirectory path = b.isDirectory path := by
  unfold FileSystem.isDirectory
  rcases h.node?_or path with hsame | ⟨x, y, hx, hy⟩
  · rw [hsame]
  · rw [hx, hy]
    rfl

theorem isFile (h : SameBut loc a b) (path : String) : a.isFile path = b.isFile path := by
  unfold FileSystem.isFile
  rcases h.node?_or path with hsame | ⟨x, y, hx, hy⟩
  · rw [hsame]
  · rw [hx, hy]
    rfl

/-- **What is read is the same in both, or it is the one file.** -/
theorem read_or (h : SameBut loc a b) (path : String) :
    a.read path = b.read path ∨ a.locate path = .ok loc ∧ b.locate path = .ok loc := by
  rw [h.locate]
  unfold FileSystem.read
  rw [h.locate]
  cases b.locate path with
  | error e => exact Or.inl rfl
  | ok l =>
    rcases h.nodes l with hsame | ⟨rfl, -⟩
    · exact Or.inl (by simp only [hsame])
    · exact Or.inr ⟨rfl, rfl⟩

end SameBut

/-! ## 3. Changes to such trees -/

theorem lookup_filter_fst (p : Location → Bool) (nodes : List (Location × Node)) (l : Location) :
    (nodes.filter fun e => p e.1).lookup l = if p l then nodes.lookup l else none := by
  induction nodes with
  | nil => simp
  | cons e es ih =>
    obtain ⟨m, node⟩ := e
    by_cases hm : l = m
    · subst hm
      cases hp : p l <;> simp [hp, ih]
    · have hne : (l == m) = false := beq_eq_false_iff_ne.mpr hm
      cases hp : p m <;> simp [List.lookup_cons, hp, hne, ih]

theorem lookup_insert (fs : FileSystem) (l m : Location) (node : Node) (hm : m ≠ []) :
    (fs.insert l node).lookup m = if m = l then some node else fs.lookup m := by
  unfold lookup insert
  rw [if_neg hm, if_neg hm, List.lookup_append, lookup_filter_fst fun k => k ≠ l]
  by_cases hml : m = l
  · simp [hml]
  · have hne : (m == l) = false := beq_eq_false_iff_ne.mpr hml
    simp [hml, hne, List.lookup_cons]

theorem lookup_erase (fs : FileSystem) (l m : Location) (hm : m ≠ []) :
    (fs.erase l).lookup m = if l.isPrefixOf m then none else fs.lookup m := by
  unfold lookup erase
  rw [if_neg hm, if_neg hm, lookup_filter_fst fun k => !l.isPrefixOf k]
  cases l.isPrefixOf m <;> rfl

namespace SameBut

variable {loc : Location} {a b : FileSystem}

theorem insert (h : SameBut loc a b) (l : Location) (node : Node) :
    SameBut loc (a.insert l node) (b.insert l node) where
  here := h.here
  accountHome := h.accountHome
  nodes m := by
    by_cases hm : m = []
    · subst hm
      exact Or.inl rfl
    · rw [lookup_insert a l m node hm, lookup_insert b l m node hm]
      split
      · exact Or.inl rfl
      · exact h.nodes m

theorem erase (h : SameBut loc a b) (l : Location) : SameBut loc (a.erase l) (b.erase l) where
  here := h.here
  accountHome := h.accountHome
  nodes m := by
    by_cases hm : m = []
    · subst hm
      exact Or.inl rfl
    · rw [lookup_erase a l m hm, lookup_erase b l m hm]
      split
      · exact Or.inl rfl
      · exact h.nodes m

/-- Two contents of one file. -/
theorem of_insert (hloc : loc ≠ []) (fs : FileSystem) (x y : ByteArray) :
    SameBut loc (fs.insert loc (.file x)) (fs.insert loc (.file y)) where
  here := rfl
  accountHome := rfl
  nodes l := by
    by_cases hl : l = loc
    · subst hl
      rw [lookup_insert fs l l _ hloc, lookup_insert fs l l _ hloc, if_pos rfl, if_pos rfl]
      exact Or.inr ⟨rfl, x, y, rfl, rfl⟩
    · by_cases hroot : l = []
      · subst hroot
        exact Or.inl rfl
      · rw [lookup_insert fs loc l _ hroot, lookup_insert fs loc l _ hroot, if_neg hl, if_neg hl]
        exact Or.inl rfl

/-- The same change to both trees: it fails alike, or what it leaves is the same but for the file. -/
inductive Change (loc : Location) : Except OsError FileSystem → Except OsError FileSystem → Prop
  | failed (e : OsError) : Change loc (.error e) (.error e)
  | made {a b : FileSystem} (h : SameBut loc a b) : Change loc (.ok a) (.ok b)

theorem writeBytes (h : SameBut loc a b) (path : String) (content : ByteArray) :
    Change loc (a.writeBytes path content) (b.writeBytes path content) := by
  unfold FileSystem.writeBytes
  rw [h.shortSpot]
  cases b.shortSpot .create path with
  | error e => exact .failed e
  | ok spot =>
    cases spot with
    | free l => exact .made (h.insert l _)
    | found l =>
      dsimp only
      rcases h.nodes l with hsame | ⟨-, x, y, hx, hy⟩
      · rw [hsame]
        split
        · exact .made (h.insert l _)
        · exact .failed _
      · rw [hx, hy]
        exact .made (h.insert l _)

theorem makeDirectory (h : SameBut loc a b) (path : String) :
    Change loc (a.makeDirectory path) (b.makeDirectory path) := by
  unfold FileSystem.makeDirectory
  rw [h.spot, h.isDirectory]
  cases b.spot .stop path with
  | error e => exact .failed e
  | ok spot =>
    cases spot with
    | free l => exact .made (h.insert l _)
    | found l =>
      dsimp only
      split
      · exact .made h
      · exact .failed _

theorem makeAll (h : SameBut loc a b) (paths : List String) :
    Change loc (a.makeAll paths) (b.makeAll paths) := by
  induction paths generalizing a b with
  | nil => exact .made h
  | cons p ps ih =>
    cases ps with
    | nil => exact h.makeDirectory p
    | cons q qs =>
      unfold FileSystem.makeAll
      rw [h.spot]
      cases b.spot .stop p with
      | error e => exact .failed e
      | ok spot =>
        cases spot with
        | free l => exact ih (h.insert l _)
        | found l => exact ih h

/-- **To touch a path changes both trees alike**, also where the path is that of the file. -/
theorem touch (h : SameBut loc a b) (path : String) : Change loc (a.touch path) (b.touch path) := by
  unfold FileSystem.touch
  rw [h.isFile]
  split
  · exact h.makeAll _
  · split
    · exact .made h
    · exact h.writeBytes path _

/-- **To remove a path changes both trees alike**, also where the path is that of the file. -/
theorem remove (h : SameBut loc a b) (path : String) :
    Change loc (a.remove path) (b.remove path) := by
  unfold FileSystem.remove
  rw [h.spot]
  cases b.spot .stop path with
  | error e => exact .failed e
  | ok spot =>
    cases spot with
    | free l => exact .failed _
    | found l => exact .made (h.erase l)

end SameBut

end FileSystem

end SuiteDriver

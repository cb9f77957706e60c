import SuiteDriver.Proofs.OneRoot

/-!
# Real locations

Links are followed on a walk, and none is left where it ends: a walk from a real directory leads to
a location whose names are proper and above which there are directories only. The path of such a
location goes there again without a link, so to resolve it once more changes nothing.

* `FileSystem.IsReal`, `FileSystem.IsStraight`: directories, and anything, below no link;
* `FileSystem.isStraight_of_walk`: where walks end;
* `Path.names_pathOf`: the path of a location goes through its names;
* `FileSystem.IsStraight.isReal_of_isDirectory`: one whose path names a directory is real;
* `FileSystem.IsReal.resolve_pathOf`, `FileSystem.IsReal.resolve_point`: it is resolved to itself.
-/

namespace SuiteDriver

/-- The names of a path hold no slash. -/
theorem Path.slash_not_mem_of_mem_names (path : String) : ∀ n ∈ names path, '/' ∉ n.toList := by
  intro n hn
  obtain ⟨p, hp, rfl⟩ := List.mem_map.mp hn
  rw [String.toList_ofList]
  rcases List.mem_append.mp hp with hp | hp
  · exact slash_not_mem_of_mem_split (List.mem_of_mem_filter hp)
  · split at hp
    · simp [List.mem_singleton.mp hp]
    · cases hp

namespace FileSystem

/-! ## 1. Locations without links -/

/-- A name that something can have: not one of those that only lead elsewhere, and without a
    slash. -/
structure IsName (name : String) : Prop where
  nonempty : name ≠ ""
  notPoint : name ≠ "."
  notUp : name ≠ ".."
  noSlash : '/' ∉ name.toList

/-- **A real directory**: it and all above it are directories, under proper names. -/
structure IsReal (fs : FileSystem) (loc : Location) : Prop where
  names : ∀ name ∈ loc, IsName name
  directories : ∀ front back, loc = front ++ back → fs.lookup front = some .directory

/-- **A straight location**: a real directory, or a file in one. -/
structure IsStraight (fs : FileSystem) (loc : Location) : Prop where
  names : ∀ name ∈ loc, IsName name
  above : ∀ front name back, loc = front ++ name :: back → fs.lookup front = some .directory
  there : fs.lookup loc = some .directory ∨ ∃ content, fs.lookup loc = some (.file content)

variable {fs : FileSystem} {loc front : Location} {name : String}

theorem IsReal.root (fs : FileSystem) : fs.IsReal [] where
  names := nofun
  directories front back h := by
    obtain ⟨rfl, -⟩ := List.append_eq_nil_iff.mp h.symm
    rfl

theorem IsReal.of_append {back : Location} (h : fs.IsReal (front ++ back)) : fs.IsReal front where
  names name hname := h.names name (List.mem_append_left _ hname)
  directories first second hsame := h.directories first (second ++ back) (by simp [hsame])

theorem IsReal.dropLast (h : fs.IsReal loc) : fs.IsReal loc.dropLast := by
  rcases loc.eq_nil_or_concat with rfl | ⟨front, name, rfl⟩
  · exact h
  · rw [List.concat_eq_append] at h ⊢
    rw [List.dropLast_concat]
    exact h.of_append

/-- What is above a name in a real directory. -/
theorem IsReal.above (h : fs.IsReal loc) {first back : Location} {other : String}
    (hsame : loc ++ [name] = first ++ other :: back) : fs.lookup first = some .directory := by
  rcases back.eq_nil_or_concat with rfl | ⟨back, last, rfl⟩
  · obtain ⟨rfl, -⟩ := List.append_inj' hsame rfl
    exact h.directories loc [] (List.append_nil _).symm
  · have hfront : loc = first ++ other :: back := by
      rw [List.concat_eq_append, ← List.cons_append, ← List.append_assoc] at hsame
      exact (List.append_inj' hsame rfl).1
    exact h.directories first (other :: back) hfront

theorem IsReal.append (h : fs.IsReal loc) (hname : IsName name)
    (hdir : fs.lookup (loc ++ [name]) = some .directory) : fs.IsReal (loc ++ [name]) where
  names := List.forall_mem_append.mpr ⟨h.names, List.forall_mem_singleton.mpr hname⟩
  directories first back hsame := by
    cases back with
    | nil =>
      rw [List.append_nil] at hsame
      exact hsame ▸ hdir
    | cons other back => exact h.above hsame

theorem IsReal.isStraight (h : fs.IsReal loc) : fs.IsStraight loc where
  names := h.names
  above first other back hsame := h.directories first (other :: back) hsame
  there := Or.inl (h.directories loc [] (List.append_nil _).symm)

/-- A file in a real directory. -/
theorem IsReal.append_file (h : fs.IsReal loc) (hname : IsName name) {content : ByteArray}
    (hfile : fs.lookup (loc ++ [name]) = some (.file content)) : fs.IsStraight (loc ++ [name]) where
  names := List.forall_mem_append.mpr ⟨h.names, List.forall_mem_singleton.mpr hname⟩
  above _ _ _ hsame := h.above hsame
  there := Or.inr ⟨content, hfile⟩

theorem IsStraight.isReal (h : fs.IsStraight loc) (hdir : fs.lookup loc = some .directory) :
    fs.IsReal loc where
  names := h.names
  directories first back hsame := by
    cases back with
    | nil =>
      rw [List.append_nil] at hsame
      exact hsame ▸ hdir
    | cons other back => exact h.above first other back hsame

/-! ## 2. Where walks end -/

/-- Along names without a slash, from a real directory on, a walk ends below no link. -/
theorem isStraight_of_walkNames {aim : Aim} (haim : aim ≠ .stop)
    {jump : Location → List String → Except OsError Spot}
    (hjump : ∀ l names, fs.IsReal l → (∀ n ∈ names, '/' ∉ n.toList) →
      jump l names = .ok (.found loc) → fs.IsStraight loc)
    {l : Location} (hl : fs.IsReal l) {names : List String} (hnames : ∀ n ∈ names, '/' ∉ n.toList)
    (h : fs.walkNames aim jump l names = .ok (.found loc)) : fs.IsStraight loc := by
  induction names generalizing l with
  | nil =>
    cases h
    exact hl.isStraight
  | cons name rest ih =>
    obtain ⟨hslash, hrest⟩ := List.forall_mem_cons.mp hnames
    unfold walkNames at h
    split at h
    · exact ih hl hrest h
    · next hvoid =>
      obtain ⟨hempty, hpoint⟩ := not_or.mp hvoid
      split at h
      · exact ih hl.dropLast hrest h
      · next hup =>
        have hname : IsName name := ⟨hempty, hpoint, hup, hslash⟩
        split at h
        · cases h
        · split at h
          · split at h <;> cases h
          · next hdir => exact ih (hl.append hname hdir) hrest h
          · next content hfile =>
            split at h
            · cases h
              exact hl.append_file hname hfile
            · cases h
          · next target _ =>
            -- a link leads on from the root or from here, and both are real
            rw [if_neg (fun hstop => haim hstop.2)] at h
            have htarget : ∀ n ∈ Path.names target ++ rest, '/' ∉ n.toList :=
              List.forall_mem_append.mpr ⟨Path.slash_not_mem_of_mem_names target, hrest⟩
            refine hjump _ _ ?_ htarget h
            split
            · exact .root fs
            · exact hl

theorem isStraight_of_walk {aim : Aim} (haim : aim ≠ .stop) {links : Nat} {l : Location}
    (hl : fs.IsReal l) {names : List String} (hnames : ∀ n ∈ names, '/' ∉ n.toList)
    (h : fs.walk aim links l names = .ok (.found loc)) : fs.IsStraight loc := by
  induction links generalizing l names with
  | zero => exact isStraight_of_walkNames haim (fun _ _ _ _ hjump => by cases hjump) hl hnames h
  | succ links ih =>
    exact isStraight_of_walkNames haim (fun _ _ hreal hfree hjump => ih hreal hfree hjump) hl hnames h

/-- **What a path is resolved to is below no link.** -/
theorem exists_isStraight_of_resolve (hhere : fs.IsReal fs.here) {path root : String}
    (h : fs.resolve path = .ok root) : ∃ loc, root = pathOf loc ∧ fs.IsStraight loc := by
  unfold resolve spot at h
  split at h
  · next loc hspot =>
    cases h
    refine ⟨loc, rfl, ?_⟩
    have hresolve : Aim.resolve ≠ .stop := by decide
    have hstart : fs.IsReal (fs.start path) := by
      unfold start
      split
      · exact .root fs
      · exact hhere
    split at hspot
    · cases hspot
    · split at hspot
      · cases hspot
      · exact isStraight_of_walk hresolve hstart (Path.slash_not_mem_of_mem_names path) hspot
  · cases h
  · cases h

end FileSystem

/-! ## 3. The path of a location -/

theorem Text.joinWith_cons (mark : Char) (p : List Char) (ps : List (List Char)) :
    joinWith mark (p :: ps) = p ++ ps.flatMap (mark :: ·) := by
  induction ps generalizing p with
  | nil => simp [joinWith]
  | cons q ps ih =>
    rw [joinWith, ih, List.flatMap_cons, List.cons_append]
    exact List.cons_ne_nil _ _

namespace FileSystem

theorem pathOf_eq_join {loc : Location} (hne : loc ≠ []) :
    pathOf loc = String.join (loc.map ("/" ++ ·)) := by
  cases loc with
  | nil => exact absurd rfl hne
  | cons name loc => rfl

theorem toList_pathOf {loc : Location} (hne : loc ≠ []) :
    (pathOf loc).toList = Path.unsplit ([] :: loc.map String.toList) := by
  have hjoin (l : Location) : (String.join (l.map ("/" ++ ·))).toList =
      (l.map String.toList).flatMap ('/' :: ·) := by
    induction l with
    | nil => rfl
    | cons name l ih => simp [String.join_cons, ih]
  rw [pathOf_eq_join hne, hjoin]
  exact (Text.joinWith_cons '/' [] (loc.map String.toList)).symm

theorem pathOf_append {front : Location} (hne : front ≠ []) (back : Location) :
    pathOf (front ++ back) = pathOf front ++ String.join (back.map ("/" ++ ·)) := by
  rw [pathOf_eq_join hne, pathOf_eq_join (by simp [hne]), List.map_append, String.join_append]

end FileSystem

namespace Path

open FileSystem (pathOf IsName)

variable {loc : Location}

/-- Proper names hold no slash, as lists of characters as well. -/
theorem slash_not_mem_of_isName (hnames : ∀ name ∈ loc, IsName name) :
    ∀ p ∈ loc.map String.toList, '/' ∉ p := by
  intro p hp
  obtain ⟨name, hname, rfl⟩ := List.mem_map.mp hp
  exact (hnames name hname).noSlash

/-- None of them is empty, so neither is the last. -/
theorem getLast?_ne_of_isName (hnames : ∀ name ∈ loc, IsName name) :
    (loc.map String.toList).getLast? ≠ some [] := by
  intro h
  obtain ⟨name, hname, hempty⟩ := List.mem_map.mp (List.mem_of_getLast? h)
  exact (hnames name hname).nonempty (String.toList_eq_nil_iff.mp hempty)

theorem split_pathOf (hne : loc ≠ []) (hnames : ∀ name ∈ loc, IsName name) :
    split (pathOf loc).toList = [] :: loc.map String.toList := by
  rw [FileSystem.toList_pathOf hne]
  exact Text.splitAt_joinWith (by simp)
    (List.forall_mem_cons.mpr ⟨by simp, slash_not_mem_of_isName hnames⟩)

theorem starts_pathOf (hnames : ∀ name ∈ loc, IsName name) :
    Starts (pathOf loc) (loc.map String.toList) := by
  cases hloc : loc with
  | nil => exact starts_slash
  | cons name rest =>
    rw [← hloc]
    have hfree := slash_not_mem_of_isName hnames
    have hlast := getLast?_ne_of_isName hnames
    have hpath : pathOf loc = String.ofList (unsplit ([] :: loc.map String.toList)) := by
      rw [← FileSystem.toList_pathOf (by simp [hloc]), String.ofList_toList]
    rw [hpath]
    rw [hloc, List.map_cons] at hfree hlast ⊢
    exact starts_unsplit hfree hlast

theorem filter_ne_nil (hnames : ∀ name ∈ loc, IsName name) :
    ((loc.map String.toList).filter (· ≠ [])).map String.ofList = loc := by
  have hall : ∀ p ∈ loc.map String.toList, decide (p ≠ []) = true := by
    intro p hp
    obtain ⟨n, hn, rfl⟩ := List.mem_map.mp hp
    exact decide_eq_true (mt String.toList_eq_nil_iff.mp (hnames n hn).nonempty)
  rw [List.filter_eq_self.mpr hall, List.map_map]
  simp [Function.comp_def, String.ofList_toList]

/-- **The path of a location goes through its names**, and that of the root stays there. -/
theorem names_pathOf (hnames : ∀ name ∈ loc, IsName name) :
    ∃ void, names (pathOf loc) = loc ++ void ∧ ∀ n ∈ void, n = "" := by
  by_cases hne : loc = []
  · subst hne
    exact ⟨[""], rfl, by simp⟩
  · have hlist : (pathOf loc).toList ≠ [] := by
      rw [FileSystem.toList_pathOf hne]
      obtain ⟨name, rest, rfl⟩ := List.exists_cons_of_ne_nil hne
      simp [unsplit, Text.joinWith]
    have hlast : ([] :: loc.map String.toList).getLast? ≠ some [] := by
      obtain ⟨name, rest, rfl⟩ := List.exists_cons_of_ne_nil hne
      rw [List.map_cons, List.getLast?_cons_cons, ← List.map_cons]
      exact getLast?_ne_of_isName hnames
    refine ⟨[], ?_, by simp⟩
    rw [names_eq hlist, split_pathOf hne hnames, if_neg hlast, List.append_nil,
      List.filter_cons_of_neg (by simp), filter_ne_nil hnames, List.append_nil]

/-- So does the path with a point after it. -/
theorem names_join_pathOf_point (hnames : ∀ name ∈ loc, IsName name) :
    names (join (pathOf loc) ".") = loc ++ ["."] := by
  rw [(starts_pathOf hnames).names_join rfl, filter_ne_nil hnames]
  rfl

end Path

/-! ## 4. Walks along a location -/

namespace FileSystem

variable {fs : FileSystem} {loc front names : Location}

theorem walkNames_of_void (fs : FileSystem) (aim : Aim)
    (jump : Location → List String → Except OsError Spot) (loc : Location) {void : List String}
    (hvoid : ∀ n ∈ void, n = "" ∨ n = ".") : fs.walkNames aim jump loc void = .ok (.found loc) := by
  induction void with
  | nil => rfl
  | cons n void ih =>
    obtain ⟨hn, hrest⟩ := List.forall_mem_cons.mp hvoid
    rw [walkNames, if_pos hn, ih hrest]

/-- A walk that gets along a straight location to its end is there, and no name on it is too
    long. -/
theorem found_of_walkNames {jump : Location → List String → Except OsError Spot} {spot : Spot}
    {void : List String} (hvoid : ∀ n ∈ void, n = "" ∨ n = ".")
    (hloc : fs.IsStraight (front ++ names))
    (h : fs.walkNames .follow jump front (names ++ void) = .ok spot) :
    spot = .found (front ++ names) ∧ ∀ name ∈ names, name.utf8ByteSize ≤ longestName := by
  induction names generalizing front with
  | nil =>
    rw [List.nil_append, walkNames_of_void fs .follow jump front hvoid] at h
    cases h
    exact ⟨by rw [List.append_nil], nofun⟩
  | cons name rest ih =>
    have hname : IsName name := hloc.names name (by simp)
    rw [List.cons_append, walkNames, if_neg (by simp [hname.nonempty, hname.notPoint]),
      if_neg hname.notUp] at h
    split at h
    · cases h
    · next hallowed =>
      have hshort : name.utf8ByteSize ≤ longestName := by
        simpa [Aim.refusal?] using hallowed
      have hassoc : front ++ name :: rest = (front ++ [name]) ++ rest := by simp
      -- below the name the walk goes on only from a directory, and a file ends it
      have hnext (hdir : fs.lookup (front ++ [name]) = some .directory) :
          spot = .found (front ++ name :: rest) ∧
            ∀ n ∈ name :: rest, n.utf8ByteSize ≤ longestName := by
        rw [hdir] at h
        rw [hassoc] at hloc ⊢
        obtain ⟨hspot, hrest⟩ := ih hloc h
        exact ⟨hspot, List.forall_mem_cons.mpr ⟨hshort, hrest⟩⟩
      cases rest with
      | cons other rest => exact hnext (hloc.above (front ++ [name]) other rest (by simp))
      | nil =>
        rcases hloc.there with hdir | ⟨content, hfile⟩
        · exact hnext hdir
        · rw [hfile] at h
          dsimp only at h
          split at h
          · cases h
            exact ⟨rfl, List.forall_mem_singleton.mpr hshort⟩
          · cases h

/-- Nothing on the way to a real directory is refused, if no name and no path is too long. -/
theorem IsReal.walkNames_resolve {jump : Location → List String → Except OsError Spot}
    (h : fs.IsReal (front ++ names)) (hnames : ∀ name ∈ names, name.utf8ByteSize ≤ longestName)
    (hpath : (pathOf (front ++ names)).utf8ByteSize ≤ longestPath) (rest : List String) :
    fs.walkNames .resolve jump front (names ++ rest) =
      fs.walkNames .resolve jump (front ++ names) rest := by
  induction names generalizing front with
  | nil => rw [List.nil_append, List.append_nil]
  | cons name names ih =>
    have hname : IsName name := h.names name (by simp)
    have hassoc : front ++ name :: names = (front ++ [name]) ++ names := by simp
    rw [hassoc] at h hpath ⊢
    obtain ⟨hshort, hrest⟩ := List.forall_mem_cons.mp hnames
    have hfirst : (pathOf (front ++ [name])).utf8ByteSize ≤ longestPath := by
      rw [pathOf_append (by simp), String.utf8ByteSize_append] at hpath
      omega
    have hallowed : Aim.resolve.refusal? front name (names ++ rest) = none := by
      simp [Aim.refusal?, Nat.not_lt.mpr hshort, Nat.not_lt.mpr hfirst]
    have hdir : fs.lookup (front ++ [name]) = some .directory := h.directories _ _ rfl
    rw [List.cons_append, walkNames, if_neg (by simp [hname.nonempty, hname.notPoint]),
      if_neg hname.notUp, hallowed, hdir]
    exact ih h hrest hpath

/-- **A location whose path the system can be handed**, name by name as well. -/
structure IsShort (loc : Location) : Prop where
  noNul : Path.hasNul (pathOf loc) = false
  names : ∀ name ∈ loc, name.utf8ByteSize ≤ longestName
  path : (pathOf loc).utf8ByteSize ≤ longestPath

theorem start_of_absolute (fs : FileSystem) {path : String} (h : Path.isAbsolute path = true) :
    fs.start path = [] := by
  unfold start
  rw [if_pos h]

theorem ne_empty_of_absolute {path : String} (h : Path.isAbsolute path = true) : path ≠ "" := by
  rintro rfl
  cases h

/-- **A straight location that its path names as a directory is real**, and its path is short. -/
theorem IsStraight.isReal_of_isDirectory (h : fs.IsStraight loc)
    (hdir : fs.isDirectory (pathOf loc) = true) : fs.IsReal loc ∧ IsShort loc := by
  obtain ⟨node, hnode, hisDir⟩ := (Option.any_eq_true _ _).mp hdir
  unfold node? locate at hnode
  split at hnode
  · next found hfound =>
    split at hfound
    · next at_ hspot =>
      cases hfound
      unfold shortSpot spot at hspot
      split at hspot
      · cases hspot
      · next hlong =>
        split at hspot
        · cases hspot
        · next hnul =>
          rw [if_neg (ne_empty_of_absolute (isAbsolute_pathOf loc)),
            fs.start_of_absolute (isAbsolute_pathOf loc)] at hspot
          obtain ⟨void, hnames, hvoid⟩ := Path.names_pathOf h.names
          rw [hnames] at hspot
          have hroot : fs.IsStraight ([] ++ loc) := h
          obtain ⟨hat, hshort⟩ := found_of_walkNames (fun n hn => Or.inl (hvoid n hn)) hroot hspot
          cases hat
          cases node with
          | directory =>
            exact ⟨h.isReal hnode, by simpa using hnul, hshort, by simpa [hnul] using hlong⟩
          | file => cases hisDir
          | link => cases hisDir
    · cases hfound
    · cases hfound
  · cases hnode

/-- A path through the names of a real directory is resolved to that of the directory. -/
theorem IsReal.resolve_of_names (h : fs.IsReal loc) (hshort : IsShort loc) {path : String}
    (habsolute : Path.isAbsolute path = true) (hnul : Path.hasNul path = false)
    {void : List String} (hnames : Path.names path = loc ++ void)
    (hvoid : ∀ n ∈ void, n = "" ∨ n = ".") : fs.resolve path = .ok (pathOf loc) := by
  have hwalk : fs.walk .resolve mostLinks [] (loc ++ void) = .ok (.found loc) := by
    have hroot : fs.IsReal ([] ++ loc) := h
    refine (hroot.walkNames_resolve hshort.names hshort.path void).trans ?_
    exact walkNames_of_void fs .resolve _ loc hvoid
  unfold resolve spot
  rw [hnul, if_neg Bool.false_ne_true, if_neg (ne_empty_of_absolute habsolute),
    fs.start_of_absolute habsolute, hnames, hwalk]

/-- **A real directory is resolved to itself.** -/
theorem IsReal.resolve_pathOf (h : fs.IsReal loc) (hshort : IsShort loc) :
    fs.resolve (pathOf loc) = .ok (pathOf loc) := by
  obtain ⟨void, hnames, hvoid⟩ := Path.names_pathOf h.names
  exact h.resolve_of_names hshort (isAbsolute_pathOf loc) hshort.noNul hnames
    fun n hn => Or.inl (hvoid n hn)

/-- **So is the point, seen from it.** -/
theorem IsReal.resolve_point (h : fs.IsReal loc) (hshort : IsShort loc) :
    fs.resolve (Path.join (pathOf loc) ".") = .ok (pathOf loc) := by
  refine h.resolve_of_names hshort (Path.isAbsolute_join (isAbsolute_pathOf loc) ".") ?_
    (Path.names_join_pathOf_point h.names) (by simp)
  have hnul := hshort.noNul
  unfold Path.hasNul Path.join at *
  rw [if_neg (by decide)]
  split
  · simpa using hnul
  · simpa using hnul

end FileSystem

end SuiteDriver

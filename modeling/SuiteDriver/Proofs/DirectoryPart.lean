import Mathlib.Data.List.DropRight
import SuiteDriver.FileSystem

/-!
# The directory part of a path

Paths are joined and cut as texts, but they are walked segment by segment, and a walk does not stop
at a segment that stands for nothing. So the directory part of a path into a directory may be
another text than the directory, with fewer slashes and points at its end; seen from it, every path
leads to the same place.

* `Path.endsInSlash_iff`, `Path.names_eq`: the names of a path, from its segments;
* `Path.exists_parent?_join`: the directory part of a name in a directory;
* `FileSystem.resolve_join_parent?`: whatever is seen from it is seen from the directory;
* `FileSystem.exists_parent?_of_read`: a path that is read has a directory part.
-/

namespace SuiteDriver

/-! ## 1. Segments -/

namespace Path

theorem isVoid_iff {segment : List Char} :
    isVoid segment = true ↔ segment = [] ∨ segment = ['.'] := by
  simp [isVoid]

theorem split_ne_nil (s : List Char) : split s ≠ [] := Text.splitAt_ne_nil _ _

theorem slash_not_mem_of_mem_split {s p : List Char} (h : p ∈ split s) : '/' ∉ p := fun hmem =>
  (Text.exists_mem_splitAt_iff.mp ⟨p, h, hmem⟩).2 rfl

theorem trimVoid_eq (ss : List (List Char)) : trimVoid ss = ss.rdropWhile isVoid := rfl

/-- The void segments that are cut off. -/
theorem exists_append_trimVoid (ss : List (List Char)) :
    ∃ v, ss = trimVoid ss ++ v ∧ ∀ p ∈ v, isVoid p = true :=
  ⟨ss.rtakeWhile isVoid, List.rdropWhile_append_rtakeWhile.symm,
    fun _ => List.mem_rtakeWhile_imp⟩

theorem isVoid_getLast?_trimVoid {ss : List (List Char)} {p : List Char}
    (h : (trimVoid ss).getLast? = some p) : isVoid p = false := by
  rw [trimVoid_eq, List.getLast?_eq_some_iff] at h
  obtain ⟨qs, hqs⟩ := h
  have hne : ss.rdropWhile isVoid ≠ [] := by simp [hqs]
  have hlast := List.rdropWhile_last_not isVoid ss hne
  simpa [hqs] using hlast

/-- The last segment that stands for something is cut off, and void ones before it. -/
theorem dropLast?_append_singleton {p : List Char} (hp : isVoid p = false)
    (ss : List (List Char)) : dropLast? (ss ++ [p]) = some (trimVoid ss) := by
  have htrim : trimVoid (ss ++ [p]) = ss ++ [p] := by
    rw [trimVoid_eq, List.rdropWhile_concat_neg _ _ _ (by simp [hp])]
  unfold dropLast?
  rw [htrim]
  cases ss with
  | nil => rfl
  | cons s ss =>
    rw [List.cons_append]
    dsimp only
    rw [← List.cons_append, List.dropLast_concat]

theorem all_isVoid_of_dropLast?_eq_none {ss : List (List Char)} (h : dropLast? ss = none) :
    ∀ p ∈ ss, isVoid p = true := by
  unfold dropLast? at h
  split at h
  · next hnil => exact List.rdropWhile_eq_nil_iff.mp hnil
  · cases h

/-- A text that ends in another character than the mark has it in its last part. -/
theorem getLast?_splitAt_append_singleton {mark c : Char} (hc : c ≠ mark) (xs : List Char) :
    ∃ p, (Text.splitAt mark (xs ++ [c])).getLast? = some (p ++ [c]) := by
  induction xs with
  | nil => exact ⟨[], by simp [Text.splitAt, hc]⟩
  | cons x xs ih =>
    obtain ⟨p, hp⟩ := ih
    rw [List.cons_append, Text.splitAt]
    cases hsplit : Text.splitAt mark (xs ++ [c]) with
    | nil => exact absurd hsplit (Text.splitAt_ne_nil _ _)
    | cons q qs =>
      rw [hsplit] at hp
      split
      · exact ⟨p, by rw [List.getLast?_cons_cons, hp]⟩
      · cases qs with
        | nil =>
          obtain rfl : q = p ++ [c] := by simpa using hp
          exact ⟨x :: p, rfl⟩
        | cons r rs => exact ⟨p, by rw [List.getLast?_cons_cons] at hp ⊢; exact hp⟩

/-- **A path ends in a slash if it is not empty and its last segment is.** -/
theorem endsInSlash_iff {path : String} :
    endsInSlash path = true ↔ path.toList ≠ [] ∧ (split path.toList).getLast? = some [] := by
  unfold endsInSlash
  rcases List.eq_nil_or_concat path.toList with hnil | ⟨xs, c, hc⟩
  · simp [hnil]
  · rw [List.concat_eq_append] at hc
    rw [hc]
    by_cases hslash : c = '/'
    · subst hslash
      simp [split, Text.splitAt_append, Text.splitAt]
    · obtain ⟨p, hp⟩ := getLast?_splitAt_append_singleton hslash xs
      simp [split, hp, hslash]

/-- The names of a path that is not empty, from its segments. -/
theorem names_eq {path : String} (hne : path.toList ≠ []) :
    names path = ((split path.toList).filter (· ≠ []) ++
      if (split path.toList).getLast? = some [] then [[]] else []).map String.ofList := by
  have hslash : endsInSlash path = true ↔ (split path.toList).getLast? = some [] := by
    rw [endsInSlash_iff, and_iff_right hne]
  unfold names
  simp only [hslash]

/-- A path without a directory part has no segment that stands for something. -/
theorem exists_void_of_parent?_eq_none {path : String} (h : parent? path = none) :
    ∃ void, split path.toList = [] :: void ∧ ∀ p ∈ void, isVoid p = true := by
  unfold parent? at h
  split at h
  · next hnil => exact absurd hnil (split_ne_nil _)
  · next first rest hsplit =>
    split at h
    · split at h <;> cases h
    · cases h
    · next hlast =>
      split at h
      · next hfirst => exact ⟨rest, hfirst ▸ hsplit, all_isVoid_of_dropLast?_eq_none hlast⟩
      · cases h

theorem void_of_mem_names {path : String} (hvoid : ∀ p ∈ split path.toList, isVoid p = true) :
    ∀ n ∈ names path, n = "" ∨ n = "." := by
  intro n hn
  obtain ⟨p, hp, rfl⟩ := List.mem_map.mp hn
  have hempty : p ∈ split path.toList ∨ p = [] := by
    rcases List.mem_append.mp hp with hp | hp
    · exact Or.inl (List.mem_of_mem_filter hp)
    · split at hp
      · exact Or.inr (List.mem_singleton.mp hp)
      · cases hp
  rcases hempty with hp | rfl
  · rcases isVoid_iff.mp (hvoid p hp) with rfl | rfl
    · exact Or.inl rfl
    · exact Or.inr rfl
  · exact Or.inl rfl

/-- A path whose first segment is empty is absolute, unless it is empty itself. -/
theorem isAbsolute_of_split {path : String} {rest : List (List Char)} (hne : path ≠ "")
    (h : split path.toList = [] :: rest) : isAbsolute path = true := by
  have hjoin : path.toList = Text.joinWith '/' ([] :: rest) := by
    rw [← h]
    exact (Text.joinWith_splitAt ..).symm
  cases rest with
  | nil => exact absurd (String.toList_eq_nil_iff.mp hjoin) hne
  | cons p ps => simp [isAbsolute, hjoin, Text.joinWith]

/-! ## 2. Paths from a directory -/

/-- What is seen from an absolute base is absolute. -/
theorem isAbsolute_join {base : String} (h : isAbsolute base = true) (path : String) :
    isAbsolute (join base path) = true := by
  obtain ⟨r, hr⟩ : ∃ r, base.toList = '/' :: r := by
    cases hc : base.toList with
    | nil => simp [isAbsolute, hc] at h
    | cons c r => exact ⟨r, by simpa [isAbsolute, hc] using h⟩
  unfold join
  split
  · assumption
  · split
    · simp [isAbsolute, hr]
    · simp [isAbsolute, hr]

/-- Paths from a base go through the same segments first. -/
def Starts (base : String) (front : List (List Char)) : Prop :=
  isAbsolute base = true ∧ ∀ path, isAbsolute path = false →
    split (join base path).toList = [] :: (front ++ split path.toList)

theorem split_append_slash (s : List Char) (path : String) :
    split (s ++ '/' :: path.toList) = split s ++ split path.toList :=
  Text.splitAt_append ..

/-- A text that is empty or starts with a slash has an empty first segment. -/
theorem exists_split_eq_cons {s : List Char} (h : s = [] ∨ s.head? = some '/') :
    ∃ front, split s = [] :: front := by
  cases s with
  | nil => exact ⟨[], rfl⟩
  | cons c r =>
    obtain rfl : c = '/' := by simpa using h
    exact ⟨split r, by simp [split, Text.splitAt]⟩

/-- **From every absolute base paths go through the same segments first.** -/
theorem exists_starts {base : String} (h : isAbsolute base = true) :
    ∃ front, (∀ p ∈ front, '/' ∉ p) ∧ Starts base front := by
  have hhead : base.toList.head? = some '/' := by simpa [isAbsolute] using h
  have hfront {s : List Char} {front : List (List Char)} (hs : split s = [] :: front) :
      ∀ p ∈ front, '/' ∉ p := fun p hp =>
    slash_not_mem_of_mem_split (hs ▸ List.mem_cons_of_mem _ hp)
  by_cases hslash : endsInSlash base = true
  · -- the slash at the end of the base is the one between the two
    obtain ⟨s, hs⟩ : ∃ s, base.toList = s ++ ['/'] := by
      obtain ⟨c, hc⟩ := List.getLast?_eq_some_iff.mp (beq_iff_eq.mp hslash)
      exact ⟨c, hc⟩
    have hfirst : s = [] ∨ s.head? = some '/' := by
      cases s with
      | nil => exact Or.inl rfl
      | cons c r =>
        rw [hs] at hhead
        exact Or.inr hhead
    obtain ⟨front, hsplit⟩ := exists_split_eq_cons hfirst
    refine ⟨front, hfront hsplit, h, fun path hpath => ?_⟩
    have hjoin : (join base path).toList = s ++ '/' :: path.toList := by
      simp [join, hpath, hslash, hs]
    rw [hjoin, split_append_slash, hsplit, List.cons_append]
  · obtain ⟨front, hsplit⟩ := exists_split_eq_cons (Or.inr hhead)
    refine ⟨front, hfront hsplit, h, fun path hpath => ?_⟩
    have hne : base ≠ "" := by
      rintro rfl
      cases hhead
    have hjoin : (join base path).toList = base.toList ++ '/' :: path.toList := by
      simp [join, hpath, hslash, hne]
    rw [hjoin, split_append_slash, hsplit, List.cons_append]

theorem starts_slash : Starts "/" [] := by
  refine ⟨rfl, fun path hpath => ?_⟩
  have hjoin : (join "/" path).toList = [] ++ '/' :: path.toList := by
    simp [join, hpath, endsInSlash]
  rw [hjoin, split_append_slash]
  rfl

/-- A path that is put together from segments starts with them, if its last one is not empty. -/
theorem starts_unsplit {s : List Char} {ss : List (List Char)} (hfree : ∀ p ∈ s :: ss, '/' ∉ p)
    (hlast : (s :: ss).getLast? ≠ some []) :
    Starts (String.ofList (unsplit ([] :: s :: ss))) (s :: ss) := by
  have hsplit : split (unsplit ([] :: s :: ss)) = [] :: s :: ss :=
    Text.splitAt_joinWith (by simp) (List.forall_mem_cons.mpr ⟨List.not_mem_nil, hfree⟩)
  have hends : endsInSlash (String.ofList (unsplit ([] :: s :: ss))) = false := by
    rw [Bool.eq_false_iff]
    intro hends
    obtain ⟨-, hempty⟩ := endsInSlash_iff.mp hends
    rw [String.toList_ofList, hsplit, List.getLast?_cons_cons] at hempty
    exact hlast hempty
  have habsolute : isAbsolute (String.ofList (unsplit ([] :: s :: ss))) = true := by
    simp [isAbsolute, unsplit, Text.joinWith]
  have hne : String.ofList (unsplit ([] :: s :: ss)) ≠ "" := by
    intro hempty
    rw [hempty] at habsolute
    cases habsolute
  refine ⟨habsolute, fun path hpath => ?_⟩
  have hjoin : (join (String.ofList (unsplit ([] :: s :: ss))) path).toList =
      unsplit ([] :: s :: ss) ++ '/' :: path.toList := by
    simp [join, hpath, hends, hne]
  rw [hjoin, split_append_slash, hsplit]
  rfl

/-- The directory part of an absolute path. -/
theorem parent?_of_kept {path : String} {rest kept : List (List Char)}
    (hsplit : split path.toList = [] :: rest) (hkept : dropLast? rest = some kept) :
    parent? path = some (if kept = [] then "/" else String.ofList (unsplit ([] :: kept))) := by
  unfold parent?
  rw [hsplit]
  dsimp only
  rw [hkept]
  cases kept <;> rfl

/-- **The directory part of a name in a directory** starts like the directory, but for segments that
    stand for nothing. -/
theorem exists_parent?_join {dir name : String} (hdir : isAbsolute dir = true)
    (hname : isVoid name.toList = false) (hslash : '/' ∉ name.toList) :
    ∃ base front void, parent? (join dir name) = some base ∧ Starts base front ∧
      Starts dir (front ++ void) ∧ ∀ p ∈ void, isVoid p = true := by
  obtain ⟨segments, hsegments, hstarts⟩ := exists_starts hdir
  obtain ⟨void, hvoid, hall⟩ := exists_append_trimVoid segments
  have hrelative : isAbsolute name = false := by
    cases hc : name.toList with
    | nil => simp [isAbsolute, hc]
    | cons c r =>
      have : c ≠ '/' := fun h => hslash (by simp [hc, h])
      simp [isAbsolute, hc, this]
  have hkept : dropLast? (segments ++ split name.toList) = some (trimVoid segments) := by
    rw [show split name.toList = [name.toList] from Text.splitAt_of_not_mem hslash]
    exact dropLast?_append_singleton hname segments
  have hparent := parent?_of_kept (hstarts.2 name hrelative) hkept
  have hdirStarts : Starts dir (trimVoid segments ++ void) := hvoid ▸ hstarts
  cases htrim : trimVoid segments with
  | nil =>
    rw [htrim, if_pos rfl] at hparent
    rw [htrim] at hdirStarts
    exact ⟨"/", [], void, hparent, starts_slash, hdirStarts, hall⟩
  | cons s ss =>
    have hfree : ∀ p ∈ s :: ss, '/' ∉ p := fun p hp =>
      hsegments p (hvoid ▸ htrim ▸ List.mem_append_left _ hp)
    -- the last segment that is left stands for something, so it is not empty
    have hlast : (s :: ss).getLast? ≠ some [] := by
      intro hempty
      rw [← htrim] at hempty
      cases isVoid_getLast?_trimVoid hempty
    rw [htrim, if_neg (List.cons_ne_nil s ss)] at hparent
    rw [htrim] at hdirStarts
    exact ⟨_, s :: ss, void, hparent, starts_unsplit hfree hlast, hdirStarts, hall⟩

/-- The segments that are not empty, and an empty one for a slash at the end. -/
def goal (segments : List (List Char)) : List (List Char) :=
  segments.filter (· ≠ []) ++ if segments.getLast? = some [] then [[]] else []

theorem goal_ne_nil {segments : List (List Char)} (h : segments ≠ []) : goal segments ≠ [] := by
  obtain ⟨init, last, rfl⟩ := segments.eq_nil_or_concat'.resolve_left h
  by_cases hlast : last = []
  · simp [goal, hlast]
  · simp [goal, hlast]

/-- The names of a path from a base: those of the base, and then those of the path. -/
theorem Starts.names_join {base path : String} {front : List (List Char)} (h : Starts base front)
    (hpath : isAbsolute path = false) :
    names (join base path) =
      (front.filter (· ≠ [])).map String.ofList ++
        (goal (split path.toList)).map String.ofList := by
  have hsplit := h.2 path hpath
  have hne : (join base path).toList ≠ [] := by
    intro hnil
    have hlength : (split []).length = (front ++ split path.toList).length + 1 := by
      rw [hnil] at hsplit
      rw [hsplit, List.length_cons]
    have hparts : 0 < (split path.toList).length :=
      List.length_pos_iff.mpr (split_ne_nil _)
    rw [List.length_append, show (split []).length = 1 from rfl] at hlength
    omega
  have hlast : (split (join base path).toList).getLast? = (split path.toList).getLast? := by
    rw [hsplit, ← List.cons_append, List.getLast?_append_of_ne_nil _ (split_ne_nil _)]
  rw [names_eq hne, hlast, hsplit]
  simp [goal]

/-- A path from a base holds a NUL if the base does or the path does. -/
theorem Starts.hasNul_join {base path : String} {front : List (List Char)} (h : Starts base front)
    (hpath : isAbsolute path = false) :
    hasNul (join base path) = true ↔
      (∃ p ∈ front, '\x00' ∈ p) ∨ ∃ p ∈ split path.toList, '\x00' ∈ p := by
  have hparts : (∃ p ∈ split (join base path).toList, '\x00' ∈ p) ↔
      '\x00' ∈ (join base path).toList ∧ '\x00' ≠ '/' := Text.exists_mem_splitAt_iff
  have hmem : '\x00' ∈ (join base path).toList ↔
      ∃ p ∈ split (join base path).toList, '\x00' ∈ p := by
    rw [hparts]
    exact (and_iff_left (by decide)).symm
  have hnul : hasNul (join base path) = true ↔ '\x00' ∈ (join base path).toList :=
    List.contains_iff_mem
  rw [hnul, hmem, h.2 path hpath]
  constructor
  · rintro ⟨p, hp, hin⟩
    rcases List.mem_cons.mp hp with rfl | hp
    · cases hin
    · rcases List.mem_append.mp hp with hp | hp
      · exact Or.inl ⟨p, hp, hin⟩
      · exact Or.inr ⟨p, hp, hin⟩
  · rintro (⟨p, hp, hin⟩ | ⟨p, hp, hin⟩)
    · exact ⟨p, by simp [hp], hin⟩
    · exact ⟨p, by simp [hp], hin⟩

end Path

/-! ## 3. Walks -/

namespace FileSystem

open SuiteDriver.Path

/-- A walk passes over names that stand for nothing, unless they are the last. -/
theorem walkNames_skip (fs : FileSystem) {aim : Aim} (haim : aim ≠ .create)
    {jump : Location → List String → Except OsError Spot} {void path : List String}
    (hvoid : ∀ n ∈ void, n = "" ∨ n = ".") (hpath : path ≠ [])
    (hjump : ∀ loc front, jump loc (front ++ (void ++ path)) = jump loc (front ++ path))
    (loc : Location) (front : List String) :
    fs.walkNames aim jump loc (front ++ (void ++ path)) =
      fs.walkNames aim jump loc (front ++ path) := by
  induction front generalizing loc with
  | nil =>
    rw [List.nil_append, List.nil_append]
    clear hjump
    induction void with
    | nil => rfl
    | cons n void ih =>
      obtain ⟨hn, hvoid⟩ := List.forall_mem_cons.mp hvoid
      rw [List.cons_append, walkNames, if_pos hn, ih hvoid]
  | cons name front ih =>
    have hskipped : front ++ (void ++ path) ≠ [] := by simp [hpath]
    have hleft : front ++ path ≠ [] := by simp [hpath]
    have hrefusal (rest : List String) : aim.refusal? loc name rest = aim.refusal? loc name [] := by
      simp [Aim.refusal?, haim]
    rw [List.cons_append, List.cons_append, walkNames, walkNames, ih, ih, ih,
      hrefusal (front ++ path), hrefusal (front ++ (void ++ path))]
    -- nothing but the names after a link is left to compare
    simp only [hskipped, hleft, false_and, if_false]
    cases hlookup : fs.lookup (loc ++ [name]) with
    | none => rfl
    | some node =>
      cases node with
      | file content => rfl
      | directory => rfl
      | link target =>
        dsimp only
        rw [← List.append_assoc, hjump, List.append_assoc]

theorem walk_skip (fs : FileSystem) {aim : Aim} (haim : aim ≠ .create) {void path : List String}
    (hvoid : ∀ n ∈ void, n = "" ∨ n = ".") (hpath : path ≠ []) (links : Nat) (loc : Location)
    (front : List String) :
    fs.walk aim links loc (front ++ (void ++ path)) = fs.walk aim links loc (front ++ path) := by
  induction links generalizing loc front with
  | zero => exact walkNames_skip fs haim hvoid hpath (fun _ _ => rfl) loc front
  | succ links ih => exact walkNames_skip fs haim hvoid hpath ih loc front

/-- **Where two bases differ in void segments, the same is seen from both.** -/
theorem spot_join_of_starts (fs : FileSystem) {aim : Aim} (haim : aim ≠ .create)
    {base dir : String} {front void : List (List Char)} (hbase : Starts base front)
    (hdir : Starts dir (front ++ void)) (hvoid : ∀ p ∈ void, isVoid p = true) (path : String) :
    fs.spot aim (join base path) = fs.spot aim (join dir path) := by
  by_cases hpath : isAbsolute path = true
  · simp [join, hpath]
  · rw [Bool.not_eq_true] at hpath
    have hnul : hasNul (join base path) = hasNul (join dir path) := by
      have hfree : ¬ ∃ p ∈ void, '\x00' ∈ p := by
        rintro ⟨p, hp, hin⟩
        rcases isVoid_iff.mp (hvoid p hp) with rfl | rfl
        · cases hin
        · simp at hin
      rw [Bool.eq_iff_iff, hbase.hasNul_join hpath, hdir.hasNul_join hpath]
      simp only [List.mem_append, or_and_right, exists_or, hfree, or_false]
    have hne {b : String} (hb : isAbsolute b = true) : join b path ≠ "" := by
      intro hempty
      have habsolute := isAbsolute_join hb path
      rw [hempty] at habsolute
      cases habsolute
    unfold spot start
    rw [hnul, if_neg (hne hbase.1), if_neg (hne hdir.1), isAbsolute_join hbase.1,
      isAbsolute_join hdir.1]
    have hnames : ∀ n ∈ (void.filter (· ≠ [])).map String.ofList, n = "" ∨ n = "." := by
      intro n hn
      obtain ⟨p, hp, rfl⟩ := List.mem_map.mp hn
      rcases isVoid_iff.mp (hvoid p (List.mem_of_mem_filter hp)) with rfl | rfl
      · exact Or.inl rfl
      · exact Or.inr rfl
    have hgoal : (goal (split path.toList)).map String.ofList ≠ [] := by
      simpa using goal_ne_nil (split_ne_nil path.toList)
    rw [hbase.names_join hpath, hdir.names_join hpath, List.filter_append, List.map_append,
      List.append_assoc, walk_skip fs haim hnames hgoal]

/-- **What is seen from the directory part of a name in a directory is seen from the directory.** -/
theorem resolve_join_parent? (fs : FileSystem) {dir name base : String}
    (hdir : isAbsolute dir = true) (hname : isVoid name.toList = false)
    (hslash : '/' ∉ name.toList) (hbase : parent? (join dir name) = some base) (path : String) :
    fs.resolve (join base path) = fs.resolve (join dir path) := by
  obtain ⟨found, front, void, hfound, hstarts, hdirStarts, hvoid⟩ :=
    exists_parent?_join hdir hname hslash
  obtain rfl : found = base := Option.some_inj.mp (hfound.symm.trans hbase)
  unfold resolve
  rw [spot_join_of_starts fs (by decide) hstarts hdirStarts hvoid]

/-- A walk along void names does not move. -/
theorem walk_of_void (fs : FileSystem) (aim : Aim) (links : Nat) (loc : Location)
    {void : List String} (hvoid : ∀ n ∈ void, n = "" ∨ n = ".") :
    fs.walk aim links loc void = .ok (.found loc) := by
  have hnames (jump : Location → List String → Except OsError Spot) :
      fs.walkNames aim jump loc void = .ok (.found loc) := by
    induction void with
    | nil => rfl
    | cons n void ih =>
      obtain ⟨hn, hvoid⟩ := List.forall_mem_cons.mp hvoid
      rw [walkNames, if_pos hn, ih hvoid]
  cases links with
  | zero => exact hnames _
  | succ links => exact hnames _

/-- A path without a directory part leads nowhere or to the root. -/
theorem eq_nil_of_locate {fs : FileSystem} {path : String} {loc : Location}
    (hparent : parent? path = none) (h : fs.locate path = .ok loc) : loc = [] := by
  obtain ⟨void, hsplit, hvoid⟩ := exists_void_of_parent?_eq_none hparent
  have hnames : ∀ n ∈ names path, n = "" ∨ n = "." :=
    void_of_mem_names (hsplit ▸ List.forall_mem_cons.mpr ⟨rfl, hvoid⟩)
  have hne : path ≠ "" := by
    rintro rfl
    cases h
  have hspot {spot : Spot} (hs : fs.shortSpot .follow path = .ok spot) : spot = .found [] := by
    unfold shortSpot FileSystem.spot start at hs
    rw [walk_of_void fs _ _ _ hnames, if_pos (isAbsolute_of_split hne hsplit), if_neg hne] at hs
    repeat' split at hs
    all_goals cases hs
    rfl
  unfold locate at h
  split at h
  · next hs =>
    cases h
    cases hspot hs
    rfl
  · cases h
  · cases h

/-- **A path that is read has a directory part**: the root is no file. -/
theorem exists_parent?_of_read {fs : FileSystem} {path text : String}
    (h : fs.read path = .ok text) : ∃ base, parent? path = some base := by
  cases hparent : parent? path with
  | some base => exact ⟨base, rfl⟩
  | none =>
    unfold read at h
    split at h
    · cases h
    · next loc hloc =>
      rw [eq_nil_of_locate hparent hloc] at h
      cases h

end FileSystem

end SuiteDriver

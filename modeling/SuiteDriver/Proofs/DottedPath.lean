import SuiteDriver.Proofs.OneRoot

/-!
# A path with a point in front

A path that is not absolute can be written with a point and a slash in front of it. It leads to the
same place, unless it gets too long for the system. Its directory part gets the point in front too,
but for a bare name: there the directory part is no longer empty, it is the point. What is seen from
there is the same, but for the empty text: from the point it names the current directory, and from
the empty path it names nothing.

* `Path.dotted`, `FileSystem.spot_dotted`: the path, and where it leads;
* `Path.Parents`, `Path.parents_dotted`: the directory parts of both;
* `Setup.PointMatters`: when the two name different roots as a configuration;
* `Program.run_of_dotted_config`: then only.
-/

namespace SuiteDriver

/-! ## 1. Where it leads -/

namespace Path

/-- The path with a point in front of it. -/
def dotted (path : String) : String := "./" ++ path

variable {path : String}

theorem toList_dotted (path : String) : (dotted path).toList = '.' :: '/' :: path.toList := by
  unfold dotted
  rw [String.toList_append]
  rfl

theorem dotted_ne_empty (path : String) : dotted path ≠ "" := by
  intro h
  have hlist := toList_dotted path
  rw [h] at hlist
  cases hlist

theorem isAbsolute_dotted (path : String) : isAbsolute (dotted path) = false := by
  unfold isAbsolute
  rw [toList_dotted]
  rfl

theorem hasNul_dotted (path : String) : hasNul (dotted path) = hasNul path := by
  unfold hasNul
  rw [toList_dotted]
  rfl

/-- The point is one more segment in front. -/
theorem split_dotted (path : String) :
    split (dotted path).toList = ['.'] :: split path.toList := by
  rw [toList_dotted]
  rfl

theorem names_dotted (hne : path ≠ "") : names (dotted path) = "." :: names path := by
  have hlist : path.toList ≠ [] := mt String.toList_eq_nil_iff.mp hne
  have hdotted : (dotted path).toList ≠ [] := mt String.toList_eq_nil_iff.mp (dotted_ne_empty path)
  obtain ⟨first, rest, hsplit⟩ := List.exists_cons_of_ne_nil (split_ne_nil path.toList)
  rw [names_eq hlist, names_eq hdotted, split_dotted, hsplit, List.getLast?_cons_cons]
  rfl

end Path

namespace FileSystem

open SuiteDriver.Path (dotted)

variable (fs : FileSystem) (aim : Aim) {path : String}

/-- A walk passes over a point. -/
theorem walk_point (links : Nat) (loc : Location) (names : List String) :
    fs.walk aim links loc ("." :: names) = fs.walk aim links loc names := by
  cases links with
  | zero =>
    unfold walk
    rw [walkNames, if_pos (Or.inr rfl)]
  | succ links =>
    unfold walk
    rw [walkNames, if_pos (Or.inr rfl)]

/-- **A path that is not absolute leads to the same place with a point in front.** -/
theorem spot_dotted (hrelative : Path.isAbsolute path = false) (hne : path ≠ "") :
    fs.spot aim (dotted path) = fs.spot aim path := by
  unfold spot start
  rw [Path.hasNul_dotted, if_neg (Path.dotted_ne_empty path), if_neg hne, Path.isAbsolute_dotted,
    hrelative, Path.names_dotted hne, walk_point]

theorem resolve_dotted (hrelative : Path.isAbsolute path = false) (hne : path ≠ "") :
    fs.resolve (dotted path) = fs.resolve path := by
  unfold resolve
  rw [fs.spot_dotted _ hrelative hne]

/-- So the same is read there, as long as the path is not too long with the point. -/
theorem read_dotted (hrelative : Path.isAbsolute path = false) (hne : path ≠ "")
    (hshort : (dotted path).utf8ByteSize ≤ longestPath) :
    fs.read (dotted path) = fs.read path := by
  have hlength : path.utf8ByteSize ≤ (dotted path).utf8ByteSize := by
    unfold dotted
    rw [String.utf8ByteSize_append]
    omega
  have hspot : fs.shortSpot .follow (dotted path) = fs.shortSpot .follow path := by
    unfold shortSpot
    rw [fs.spot_dotted _ hrelative hne, decide_eq_false (by omega), decide_eq_false (by omega)]
    simp
  unfold read locate
  rw [hspot]

/-- Where it is too long, nothing is read. -/
theorem read_of_long (hlong : longestPath < path.utf8ByteSize) : ∃ e, fs.read path = .error e := by
  obtain ⟨e, he⟩ : ∃ e, fs.shortSpot .follow path = .error e := by
    unfold shortSpot spot
    rw [decide_eq_true hlong]
    cases hnul : Path.hasNul path with
    | true => exact ⟨_, rfl⟩
    | false => exact ⟨_, rfl⟩
  refine ⟨e, ?_⟩
  unfold read locate
  rw [he]

end FileSystem

/-! ## 2. Its directory part -/

namespace Path

theorem trimVoid_cons (s : List Char) (ss : List (List Char)) :
    trimVoid (s :: ss) =
      match trimVoid ss with
      | [] => if isVoid s then [] else [s]
      | t :: ts => s :: t :: ts := by
  unfold trimVoid
  rw [List.reverse_cons, List.dropWhile_append]
  cases hdrop : ss.reverse.dropWhile isVoid with
  | nil => cases hs : isVoid s <;> simp [hs]
  | cons u us =>
    cases hrev : (u :: us).reverse with
    | nil => simp at hrev
    | cons t ts => simp [← hrev]

/-- What is left of segments with one more in front. -/
theorem dropLast?_cons (s : List Char) (ss : List (List Char)) :
    dropLast? (s :: ss) =
      match dropLast? ss with
      | none => if isVoid s then none else some []
      | some [] => some (if isVoid s then [] else [s])
      | some (t :: ts) => some (s :: t :: ts) := by
  unfold dropLast?
  rw [trimVoid_cons]
  cases htrim : trimVoid ss with
  | nil =>
    cases hs : isVoid s with
    | true => simp
    | false => simp [trimVoid]
  | cons t ts =>
    dsimp only
    rw [List.dropLast_cons_cons, trimVoid_cons]
    cases trimVoid (t :: ts).dropLast with
    | nil => rfl
    | cons u us => rfl

/-- The directory part of a path that does not start with a slash. -/
theorem parent?_of_split {path : String} {first : List Char} {rest : List (List Char)}
    (hsplit : split path.toList = first :: rest) (hfirst : first ≠ []) :
    parent? path = some (match dropLast? rest with
      | some kept => String.ofList (unsplit (first :: kept))
      | none => "") := by
  unfold parent?
  rw [hsplit]
  dsimp only
  rw [if_neg hfirst, if_neg hfirst]
  cases dropLast? rest with
  | none => rfl
  | some kept => cases kept <;> rfl

/-- **A bare name**: a path with an empty directory part that goes somewhere. -/
def IsBare (path : String) : Prop :=
  parent? path = some "" ∧ ∃ s ∈ split path.toList, isVoid s = false

/-- **The directory part of a path and that of the path with a point in front.** -/
inductive Parents (path : String) : Option String → Option String → Prop
  | bare (h : IsBare path) : Parents path (some "") (some ".")
  | same (base : String) (h : ¬ IsBare path) : Parents path (some base) (some base)
  | dotted {base : String} (h : ¬ IsBare path) (hrelative : isAbsolute base = false)
      (hne : base ≠ "") : Parents path (some base) (some (dotted base))

theorem parents_dotted_of_kept {path : String} {first : List Char} {kept : List (List Char)}
    (hparent : parent? path = some (String.ofList (unsplit (first :: kept))))
    (hfirst : first ≠ []) (hslash : '/' ∉ first) :
    Parents path (some (String.ofList (unsplit (first :: kept))))
      (some (String.ofList (unsplit (['.'] :: first :: kept)))) := by
  obtain ⟨c, cs, rfl⟩ := List.exists_cons_of_ne_nil hfirst
  obtain ⟨tail, htail⟩ : ∃ tail, unsplit ((c :: cs) :: kept) = c :: tail := by
    cases kept with
    | nil => exact ⟨_, rfl⟩
    | cons t ts => exact ⟨_, rfl⟩
  have hdotted : String.ofList (unsplit (['.'] :: (c :: cs) :: kept)) =
      Path.dotted (String.ofList (unsplit ((c :: cs) :: kept))) := by
    apply String.toList_injective
    rw [toList_dotted, String.toList_ofList, String.toList_ofList]
    rfl
  have hc : c ≠ '/' := fun h => hslash (h ▸ List.mem_cons_self)
  have hbase : String.ofList (unsplit ((c :: cs) :: kept)) ≠ "" := by
    intro hempty
    have htext := congrArg String.toList hempty
    rw [String.toList_ofList, htail] at htext
    cases htext
  rw [hdotted]
  refine .dotted ?_ ?_ hbase
  · rintro ⟨hempty, -⟩
    exact hbase (Option.some_inj.mp (hparent.symm.trans hempty))
  · simp [isAbsolute, htail, hc]

/-- **Every path that is not absolute is of one of these three kinds.** -/
theorem parents_dotted {path : String} (hrelative : isAbsolute path = false) (hne : path ≠ "") :
    Parents path (parent? path) (parent? (dotted path)) := by
  obtain ⟨first, rest, hsplit⟩ := List.exists_cons_of_ne_nil (split_ne_nil path.toList)
  have hfirst : first ≠ [] := by
    rintro rfl
    rw [isAbsolute_of_split hne hsplit] at hrelative
    cases hrelative
  have hslash : '/' ∉ first := slash_not_mem_of_mem_split (hsplit ▸ List.mem_cons_self)
  have hplain := parent?_of_split hsplit hfirst
  have hdotted := parent?_of_split (split_dotted path) (by simp)
  rw [hsplit, dropLast?_cons] at hdotted
  cases hrest : dropLast? rest with
  | none =>
    rw [hrest] at hplain hdotted
    cases hpoint : isVoid first with
    | false =>
      rw [hpoint] at hdotted
      rw [hplain, hdotted]
      exact .bare ⟨hplain, first, hsplit ▸ List.mem_cons_self, hpoint⟩
    | true =>
      rw [hpoint] at hdotted
      rw [hplain, hdotted]
      refine .same "" fun hbare => ?_
      obtain ⟨-, s, hs, hgoes⟩ := hbare
      rw [hsplit] at hs
      have hall : ∀ s ∈ first :: rest, isVoid s = true :=
        List.forall_mem_cons.mpr ⟨hpoint, all_isVoid_of_dropLast?_eq_none hrest⟩
      rw [hall s hs] at hgoes
      cases hgoes
  | some kept =>
    rw [hrest] at hplain hdotted
    cases kept with
    | nil =>
      cases hpoint : isVoid first with
      | true =>
        obtain rfl := (isVoid_iff.mp hpoint).resolve_left hfirst
        rw [hpoint] at hdotted
        rw [hplain, hdotted]
        refine .same "." fun hbare => ?_
        have hempty : some "." = some "" := hplain.symm.trans hbare.1
        simp at hempty
      | false =>
        rw [hpoint] at hdotted
        rw [hplain, hdotted]
        exact parents_dotted_of_kept hplain hfirst hslash
    | cons t ts =>
      rw [hplain, hdotted]
      exact parents_dotted_of_kept hplain hfirst hslash

end Path

/-! ## 3. What is seen from there -/

namespace Path

variable {base path : String}

theorem endsInSlash_dotted (hne : base ≠ "") : endsInSlash (dotted base) = endsInSlash base := by
  have hlist : base.toList ≠ [] := mt String.toList_eq_nil_iff.mp hne
  obtain ⟨c, cs, hc⟩ := List.exists_cons_of_ne_nil hlist
  unfold endsInSlash
  rw [toList_dotted, hc, List.getLast?_cons_cons, List.getLast?_cons_cons]

/-- A path from a base with a point in front is the path from the base, with a point in front. -/
theorem join_dotted (hne : base ≠ "") (hpath : isAbsolute path = false) :
    join (dotted base) path = dotted (join base path) := by
  unfold join
  rw [hpath, endsInSlash_dotted hne]
  simp only [Bool.false_eq_true, if_false, dotted_ne_empty, hne, decide_false, Bool.false_or]
  split
  · exact String.append_assoc ..
  · unfold dotted
    rw [String.append_assoc, String.append_assoc, String.append_assoc]

/-- What is seen from a base that is not absolute is not absolute either. -/
theorem join_relative (hne : base ≠ "") (hbase : isAbsolute base = false)
    (hpath : isAbsolute path = false) :
    isAbsolute (join base path) = false ∧ join base path ≠ "" := by
  obtain ⟨s, hjoin⟩ : ∃ s, join base path = base ++ s := by
    unfold join
    rw [hpath]
    split
    · next h => cases h
    · split
      · exact ⟨_, rfl⟩
      · exact ⟨_, String.append_assoc ..⟩
  have hlist : base.toList ≠ [] := mt String.toList_eq_nil_iff.mp hne
  obtain ⟨c, cs, hc⟩ := List.exists_cons_of_ne_nil hlist
  unfold isAbsolute at hbase ⊢
  rw [hc] at hbase
  rw [hjoin, String.toList_append, hc]
  refine ⟨hbase, fun hempty => ?_⟩
  have htext := congrArg String.toList hempty
  rw [String.toList_append, hc] at htext
  cases htext

end Path

namespace ProjectDir

variable {env : Environment} {fs : FileSystem} {raw base root : String}

/-- Bases from which the expanded text leads to the same place name the same. -/
theorem names_congr {base' : String}
    (h : ∀ expanded, Expand.full env fs.accountHome raw = .ok expanded →
      fs.resolve (Path.join base expanded) = fs.resolve (Path.join base' expanded)) :
    Names env fs base raw root ↔ Names env fs base' raw root := by
  unfold Names
  refine exists_congr fun expanded => and_congr_right fun hfull => ?_
  rw [h expanded hfull]

/-- A base with a point in front is as good as the base. -/
theorem names_dotted_iff (hbase : Path.isAbsolute base = false) (hne : base ≠ "") :
    Names env fs (Path.dotted base) raw root ↔ Names env fs base raw root := by
  refine names_congr fun expanded _ => ?_
  cases hpath : Path.isAbsolute expanded with
  | true => simp [Path.join, hpath]
  | false =>
    obtain ⟨hrelative, hjoin⟩ := Path.join_relative hne hbase hpath
    rw [Path.join_dotted hne hpath, fs.resolve_dotted hrelative hjoin]

/-- The point is as good as the empty path, but for the empty text. -/
theorem names_point_iff_void (hfull : Expand.full env fs.accountHome raw ≠ .ok "") :
    Names env fs "." raw root ↔ Names env fs "" raw root := by
  refine names_congr fun expanded hexpanded => ?_
  cases hpath : Path.isAbsolute expanded with
  | true => simp [Path.join, hpath]
  | false =>
    have hne : expanded ≠ "" := fun hempty => hfull (hempty ▸ hexpanded)
    have hpoint : Path.join "." expanded = Path.dotted expanded := by
      unfold Path.join
      rw [hpath]
      rfl
    have hvoid : Path.join "" expanded = expanded := by
      unfold Path.join
      rw [hpath]
      exact String.empty_append
    rw [hpoint, hvoid, fs.resolve_dotted hpath hne]

/-- From the empty path the empty text names nothing. -/
theorem not_names_void (hfull : Expand.full env fs.accountHome raw = .ok "") :
    ¬ Names env fs "" raw root := by
  rintro ⟨expanded, hexpanded, hresolve, -⟩
  rw [hfull] at hexpanded
  cases hexpanded
  cases hresolve

end ProjectDir

/-! ## 4. The root with a configuration -/

namespace ConfigFile

variable {fs : FileSystem} {path : String} {config : Config}

/-- There is one configuration at a path. -/
theorem Holds.exists_iff (h : Holds fs path config) {P : Config → Prop} :
    (∃ c, Holds fs path c ∧ P c) ↔ P config := by
  constructor
  · rintro ⟨c, ⟨text', hread', hparse'⟩, hc⟩
    obtain ⟨text, hread, hparse⟩ := h
    rw [hread] at hread'
    cases hread'
    rw [hparse] at hparse'
    cases hparse'
    exact hc
  · exact fun hc => ⟨config, h, hc⟩

theorem holds_dotted_iff (hrelative : Path.isAbsolute path = false) (hne : path ≠ "")
    (hshort : (Path.dotted path).utf8ByteSize ≤ FileSystem.longestPath) :
    Holds fs (Path.dotted path) config ↔ Holds fs path config := by
  unfold Holds
  rw [fs.read_dotted hrelative hne hshort]

end ConfigFile

namespace Setup

open ConfigFile (Holds)
open ProjectDir (Names)

variable {s : Surroundings} {language : Language} {options : RunOptions} {path root : String}

/-- The root that the setup finds. -/
def FindsRoot (s : Surroundings) (language : Language) (options : RunOptions)
    (root : String) : Prop :=
  ∃ setup, Finds s language options setup ∧ setup.root = root

theorem rootFrom_iff {given : Option String} {config : Config} {raw base dir : String}
    (hnot : given = none) (hraw : config.projectDir = some raw) :
    RootFrom s given config base dir root ↔ Names s.env s.files base raw root := by
  refine ⟨fun h => ?_, .configured hnot hraw⟩
  cases h with
  | searched hwins =>
    rw [hnot, hraw] at hwins
    rcases hwins with hwins | hwins <;> cases hwins
  | configured _ hraw' hroot =>
    rw [hraw] at hraw'
    cases hraw'
    exact hroot

/-- The base has a say only where the configured directory is seen from it. -/
theorem rootFrom_congr {given : Option String} {config : Config} {base base' dir : String}
    (h : given = none → ∀ raw, config.projectDir = some raw →
      (Names s.env s.files base raw root ↔ Names s.env s.files base' raw root)) :
    RootFrom s given config base dir root ↔ RootFrom s given config base' dir root := by
  constructor
  · intro hroot
    cases hroot with
    | searched hwins => exact .searched hwins
    | configured hnot hraw hroot => exact .configured hnot hraw ((h hnot _ hraw).mp hroot)
  · intro hroot
    cases hroot with
    | searched hwins => exact .searched hwins
    | configured hnot hraw hroot => exact .configured hnot hraw ((h hnot _ hraw).mpr hroot)

/-- **The root with a configuration that was asked for**: it is there and understood, the directory
    to search is found, and the root is seen from the configuration's directory part. -/
theorem findsRoot_iff :
    FindsRoot s language { options with config := some path } root ↔
      ∃ config, Holds s.files path config ∧
        ∃ dir, Names s.env s.files "." (options.projectDir.getD ".") dir ∧
          RootFrom s options.projectDir config ((Path.parent? path).getD dir) dir root := by
  constructor
  · rintro ⟨setup, ⟨dir, config, configPath, found, hs, rfl⟩, rfl⟩
    obtain ⟨hholds, rfl⟩ := ConfigFile.discover_of_asked.mp hs.discover
    exact ⟨config, hholds, dir, ProjectDir.resolve_eq_ok_iff.mp hs.search,
      chooseRoot_eq_ok_iff.mp (chooseRoot_of_rootedAt hs.root)⟩
  · rintro ⟨config, hholds, dir, hsearch, hroot⟩
    have hchoose : chooseRoot s
        (configLanguage s language { options with config := some path } config)
        { options with config := some path } config (some path) dir = .ok root :=
      chooseRoot_eq_ok_iff.mpr hroot
    exact ⟨_, ⟨dir, config, some path, root, ⟨ProjectDir.resolve_eq_ok_iff.mpr hsearch,
      ConfigFile.discover_of_asked.mpr ⟨hholds, rfl⟩, hchoose ▸ rootedAt_chooseRoot ..⟩, rfl⟩, rfl⟩

variable (options)

/-- At a path that is too long there is none, and no root. -/
theorem not_findsRoot_of_long (hlong : FileSystem.longestPath < path.utf8ByteSize) :
    ¬ FindsRoot s language { options with config := some path } root := by
  rw [findsRoot_iff]
  rintro ⟨config, ⟨text, hread, -⟩, -⟩
  obtain ⟨e, he⟩ := s.files.read_of_long hlong
  rw [he] at hread
  cases hread

/-- **When the point matters**: a configuration is written as a bare name, the caller gives no
    directory, and the configured one expands to the empty text. -/
structure PointMatters (s : Surroundings) (given : Option String) (path : String) : Prop where
  given : given = none
  bare : Path.IsBare path
  here : s.files.isDirectory (FileSystem.pathOf s.files.here) = true
  empty : ∃ config, Holds s.files path config ∧
    ∃ raw, config.projectDir = some raw ∧ Expand.full s.env s.files.accountHome raw = .ok ""

/-- The bare name then has no root. -/
theorem PointMatters.not_findsRoot (h : PointMatters s options.projectDir path) :
    ¬ FindsRoot s language { options with config := some path } root := by
  obtain ⟨config, hholds, raw, hraw, hfull⟩ := h.empty
  rw [findsRoot_iff, hholds.exists_iff, h.bare.1]
  rintro ⟨dir, -, hroot⟩
  exact ProjectDir.not_names_void hfull ((rootFrom_iff h.given hraw).mp hroot)

section

variable (hrelative : Path.isAbsolute path = false) (hne : path ≠ "")
  (hshort : (Path.dotted path).utf8ByteSize ≤ FileSystem.longestPath)

include hrelative hne hshort

/-- With the point it has the current directory. -/
theorem PointMatters.findsRoot_dotted_iff (h : PointMatters s options.projectDir path) :
    FindsRoot s language { options with config := some (Path.dotted path) } root ↔
      root = FileSystem.pathOf s.files.here := by
  obtain ⟨config, hholds, raw, hraw, hfull⟩ := h.empty
  have hdotted : Holds s.files (Path.dotted path) config :=
    (ConfigFile.holds_dotted_iff hrelative hne hshort).mpr hholds
  have hparent : Path.parent? (Path.dotted path) = some "." := by
    have hkinds := Path.parents_dotted hrelative hne
    rw [h.bare.1] at hkinds
    generalize Path.parent? (Path.dotted path) = found at hkinds ⊢
    cases hkinds with
    | bare => rfl
    | same _ hnot => exact absurd h.bare hnot
    | dotted hnot => exact absurd h.bare hnot
  have hsearch : Names s.env s.files "." (options.projectDir.getD ".")
      (FileSystem.pathOf s.files.here) := by
    rw [h.given]
    exact ProjectDir.names_point_iff_here.mpr ⟨rfl, h.here⟩
  rw [findsRoot_iff, hdotted.exists_iff, hparent]
  simp only [Option.getD_some, rootFrom_iff h.given hraw,
    ProjectDir.names_void_iff hfull (Or.inl rfl)]
  constructor
  · rintro ⟨_, -, hroot, -⟩
    exact hroot
  · rintro rfl
    exact ⟨_, hsearch, rfl, h.here⟩

/-- **Where the point does not matter, both have the same root.** -/
theorem findsRoot_dotted_iff (h : ¬ PointMatters s options.projectDir path) :
    FindsRoot s language { options with config := some (Path.dotted path) } root ↔
      FindsRoot s language { options with config := some path } root := by
  rw [findsRoot_iff, findsRoot_iff]
  refine exists_congr fun config => ?_
  rw [ConfigFile.holds_dotted_iff hrelative hne hshort]
  refine and_congr_right fun hholds => exists_congr fun dir => and_congr_right fun hsearch => ?_
  refine rootFrom_congr fun hnot raw hraw => ?_
  have hkinds := Path.parents_dotted hrelative hne
  generalize Path.parent? path = plain at hkinds ⊢
  generalize Path.parent? (Path.dotted path) = pointed at hkinds ⊢
  cases hkinds with
  | bare hbare =>
    rw [hnot] at hsearch
    obtain ⟨rfl, hhere⟩ := ProjectDir.names_point_iff_here.mp hsearch
    exact ProjectDir.names_point_iff_void fun hfull =>
      h ⟨hnot, hbare, hhere, config, hholds, raw, hraw, hfull⟩
  | same => exact Iff.rfl
  | dotted _ hbase hbase' => exact ProjectDir.names_dotted_iff hbase hbase'

end

end Setup

/-! ## 5. Both command lines -/

/-- The root that an event tells. -/
def Event.root? : Event → Option String
  | .said (.projectRoot path) => some path
  | _ => none

/-- The root that a run tells. -/
def Exit.root? (x : Exit) : Option String := x.events.findSome? Event.root?

namespace CommandLine

/-- No configuration is the empty path. -/
theorem config_ne_empty {words : List String} {a : Args} {path : String}
    (hparse : parse words = .ok a) (hconfig : a.config = some path) : path ≠ "" := by
  obtain ⟨w, -, hsay, -, rfl⟩ := parse_eq_ok_iff.mp hparse
  rw [w.args_eq] at hconfig
  exact hsay.outer.each _ (mem_of_valueOf? hconfig)

end CommandLine

namespace Program

open CommandLine
open Setup (FindsRoot PointMatters)

/-- **A run tells its root**, and one without a root fails. -/
theorem root?_run {h : Host} {words : List String} {a : Args} (hparse : parse words = .ok a)
    (hdefault : a.init = none) :
    (∀ root, (run h words).root? = some root ↔
      FindsRoot h.surroundings (Language.choose h.env a.language) (runOptions a) root) ∧
    ((run h words).root? = none → (run h words).status = failure) := by
  rw [run_of_asked_default hparse hdefault]
  rcases Setup.finds_or_refused h.surroundings (Language.choose h.env a.language) (runOptions a)
    with ⟨setup, hfinds⟩ | ⟨e, hrefused⟩
  · obtain ⟨chosen, hexecute⟩ := RunCommand.execute_of_finds hfinds h.launcher
    obtain ⟨after, hafter⟩ := carryOut_events h.surroundings h.launcher chosen
      (runOptions a).dryRun setup
    have htold : (performed h (Language.choose h.env a.language) a.verbose runStatus
        (RunCommand.execute h.surroundings h.launcher (Language.choose h.env a.language)
          (runOptions a))).root? = some setup.root := by
      unfold Exit.root? performed
      dsimp only
      rw [hexecute, hafter]
      rfl
    rw [htold]
    refine ⟨fun root => ⟨fun hroot => ⟨setup, hfinds, Option.some_inj.mp hroot⟩, ?_⟩, nofun⟩
    rintro ⟨setup', hfinds', rfl⟩
    rw [hfinds.unique hfinds']
  · obtain ⟨chosen, hexecute⟩ := execute_of_refused hrefused h.launcher
    rw [hexecute]
    refine ⟨fun root => ⟨nofun, ?_⟩, fun _ => rfl⟩
    rintro ⟨setup, hfinds, -⟩
    exact absurd hfinds (Setup.refused_iff_finds_nothing.mp ⟨e, hrefused⟩ setup)

section

variable {h : Host} {words words' : List String} {a : Args} {path : String}
  (hrelative : Path.isAbsolute path = false)
  (hparse : parse words = .ok { a with config := some path })
  (hparse' : parse words' = .ok { a with config := some (Path.dotted path) })
  (hdefault : a.init = none)
  (hshort : (Path.dotted path).utf8ByteSize ≤ FileSystem.longestPath)

include hrelative hparse hparse' hdefault hshort

/-- Both runs where the point matters. -/
theorem root?_of_pointMatters (hmatters : PointMatters h.surroundings a.projectDir path) :
    (run h words).root? = none ∧
      (run h words').root? = some (FileSystem.pathOf h.files.here) := by
  have hne : path ≠ "" := config_ne_empty hparse rfl
  constructor
  · refine Option.eq_none_iff_forall_ne_some.mpr fun root hroot => ?_
    exact PointMatters.not_findsRoot (runOptions a) hmatters
      (((root?_run hparse hdefault).1 root).mp hroot)
  · exact ((root?_run hparse' hdefault).1 _).mpr
      ((PointMatters.findsRoot_dotted_iff (runOptions a) hrelative hne hshort
        hmatters).mpr rfl)

/-- Both runs where it does not. -/
theorem root?_of_not_pointMatters (hmatters : ¬ PointMatters h.surroundings a.projectDir path) :
    (run h words).root? = (run h words').root? := by
  have hne : path ≠ "" := config_ne_empty hparse rfl
  ext root
  rw [(root?_run hparse hdefault).1, (root?_run hparse' hdefault).1]
  exact (Setup.findsRoot_dotted_iff (runOptions a) hrelative hne hshort hmatters).symm

end

/-- **A point in front of the configuration changes no root, but where it matters.** Two command
    lines ask for the same run, with a configuration at a path that is not absolute and with a point
    in front of that. A run without a root fails. Unless the path is too long with the point, both
    runs have the same root or none exactly if the point does not matter; where it does, the bare
    name has no root and the dotted one the current directory. If it is too long, the dotted one has
    no root. -/
theorem run_of_dotted_config (h : Host) (words words' : List String) (a : Args) (path : String)
    (hrelative : Path.isAbsolute path = false)
    (hparse : parse words = .ok { a with config := some path })
    (hparse' : parse words' = .ok { a with config := some (Path.dotted path) })
    (hdefault : a.init = none) :
    let x := run h words
    let y := run h words'
    let matters := PointMatters h.surroundings a.projectDir path
    (x.root? = none → x.status = 1) ∧ (y.root? = none → y.status = 1) ∧
    ((Path.dotted path).utf8ByteSize ≤ FileSystem.longestPath →
      (x.root? = y.root? ↔ ¬ matters) ∧
      (matters → x.root? = none ∧ y.root? = some (FileSystem.pathOf h.files.here))) ∧
    (FileSystem.longestPath < (Path.dotted path).utf8ByteSize → y.root? = none) := by
  intro x y matters
  refine ⟨(root?_run hparse hdefault).2, (root?_run hparse' hdefault).2, fun hshort => ?_,
    fun hlong => ?_⟩
  · have hboth : matters → x.root? = none ∧ y.root? = some (FileSystem.pathOf h.files.here) :=
      root?_of_pointMatters hrelative hparse hparse' hdefault hshort
    refine ⟨⟨fun hsame hmatters => ?_, fun hnot =>
      root?_of_not_pointMatters hrelative hparse hparse' hdefault hshort hnot⟩, hboth⟩
    obtain ⟨hx, hy⟩ := hboth hmatters
    rw [hx, hy] at hsame
    cases hsame
  · refine Option.eq_none_iff_forall_ne_some.mpr fun root hroot => ?_
    exact Setup.not_findsRoot_of_long (runOptions a) hlong
      (((root?_run hparse' hdefault).1 root).mp hroot)

/-- A configuration in a directory names the empty text. With the point and without it the root is
    that directory. -/
theorem run_of_dotted_config_in_directory :
    let text := "project_dir = \"\"\n"
    let files : FileSystem :=
      ⟨[(["cfg"], .directory), (["cfg", "c.toml"], .file text.toUTF8)], [], none⟩
    let host : Host := ⟨[], files, Rehearsal.Script.launcher []⟩
    let x := run host ["--dry-run", "-c", "cfg/c.toml"]
    let y := run host ["--dry-run", "-c", "./cfg/c.toml"]
    x.root? = some "/cfg" ∧ x.root? = y.root? := by
  intro text files host x y
  have hparse : parse ["--dry-run", "-c", "cfg/c.toml"] =
      .ok ⟨none, false, none, some "cfg/c.toml", none, true, none⟩ := rfl
  obtain ⟨-, -, hshort, -⟩ := run_of_dotted_config host ["--dry-run", "-c", "cfg/c.toml"]
    ["--dry-run", "-c", "./cfg/c.toml"] ⟨none, false, none, none, none, true, none⟩ "cfg/c.toml"
    rfl hparse rfl rfl
  have hbare : ¬ Path.IsBare "cfg/c.toml" := fun ⟨hparent, _⟩ => absurd hparent (by decide)
  have hsearch := ProjectDir.resolve_eq_ok_iff.mp
    (ProjectDir.resolve_point [] files.nodes none .english)
  have hfull : Expand.full [] none "" = .ok "" := Expand.full_of_plain [] none (by simp) (by simp)
  have hroot : Setup.RootFrom host.surroundings none ⟨none, .jar, some ""⟩ "cfg" "/" "/cfg" :=
    .configured rfl rfl ⟨"", hfull, rfl, rfl⟩
  let options : RunOptions := ⟨none, none, none, true, false⟩
  have hfinds : FindsRoot host.surroundings .english
      { options with config := some "cfg/c.toml" } "/cfg" :=
    Setup.findsRoot_iff.mpr
      ⟨_, ConfigFile.holds_of_void_directory rfl rfl, "/", hsearch, hroot⟩
  exact ⟨((root?_run hparse rfl).1 "/cfg").mpr hfinds,
    (hshort (by decide)).1.mpr fun hmatters => hbare hmatters.bare⟩

/-- **The bare name fails.** In the current directory a configuration names the empty text. Its bare
    name has no root, and with the point it has the current directory. -/
theorem dotted_config_has_root :
    let text := "project_dir = \"\"\n"
    let host : Host :=
      ⟨[], ⟨[(["c.toml"], .file text.toUTF8)], [], none⟩, Rehearsal.Script.launcher []⟩
    let x := run host ["--dry-run", "-c", "c.toml"]
    let y := run host ["--dry-run", "-c", "./c.toml"]
    x.root? = none ∧ x.status = 1 ∧ y.root? = some "/" ∧ x.root? ≠ y.root? := by
  intro text host x y
  have hholds : ConfigFile.Holds host.files "c.toml" ⟨none, .jar, some ""⟩ :=
    ConfigFile.holds_of_void_directory rfl rfl
  have hfull : Expand.full [] none "" = .ok "" := Expand.full_of_plain [] none (by simp) (by simp)
  have hbare : Path.IsBare "c.toml" := ⟨rfl, "c.toml".toList, by decide, by decide⟩
  have hsearch := ProjectDir.resolve_eq_ok_iff.mp
    (ProjectDir.resolve_point [] host.files.nodes none .english)
  have hmatters : PointMatters host.surroundings none "c.toml" :=
    ⟨rfl, hbare, (ProjectDir.names_point_iff_here.mp hsearch).2, _, hholds, "", rfl, hfull⟩
  have hparse : parse ["--dry-run", "-c", "c.toml"] =
      .ok ⟨none, false, none, some "c.toml", none, true, none⟩ := rfl
  have hparse' : parse ["--dry-run", "-c", "./c.toml"] =
      .ok ⟨none, false, none, some (Path.dotted "c.toml"), none, true, none⟩ := rfl
  obtain ⟨hx, hy⟩ := root?_of_pointMatters (h := host)
    (a := ⟨none, false, none, none, none, true, none⟩) rfl hparse hparse' rfl (by decide) hmatters
  refine ⟨hx, (root?_run hparse rfl).2 hx, hy, ?_⟩
  show (run host _).root? ≠ (run host _).root?
  rw [hx, hy]
  exact nofun

end Program

end SuiteDriver

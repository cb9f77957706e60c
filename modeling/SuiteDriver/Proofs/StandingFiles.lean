import SuiteDriver.FileSystem

/-!
# What stands at a path

What stands at a path is a matter of the tree alone: the names of the path lead from directory to
directory, and a link puts the names of its target in their place. The system finds it only within
its limits. A name or a path that is too long is refused, and so is one link too many; a test that
then says no has not looked at what is there.

* `FileSystem.Reaches`: where names lead, however many links and bytes it takes;
* `FileSystem.HasFile`: a regular file stands at a path;
* `FileSystem.hasFile_of_locate`, `FileSystem.locate_of_hasFile`: what the system finds is there, and
  what is there is found or is beyond a limit.
-/

namespace SuiteDriver.FileSystem

variable {fs : FileSystem} {loc found : Location} {names : List String} {path : String}

/-! ## 1. Without limits -/

/-- **Where names lead from a directory**, through any number of links. -/
inductive Reaches (fs : FileSystem) : Location → List String → Location → Prop
  | here {loc : Location} : Reaches fs loc [] loc
  | void {loc found : Location} {name : String} {rest : List String}
      (hname : name = "" ∨ name = ".") (h : Reaches fs loc rest found) :
      Reaches fs loc (name :: rest) found
  | up {loc found : Location} {rest : List String} (h : Reaches fs loc.dropLast rest found) :
      Reaches fs loc (".." :: rest) found
  | directory {loc found : Location} {name : String} {rest : List String}
      (hname : ¬ (name = "" ∨ name = ".")) (hup : name ≠ "..")
      (hnode : fs.lookup (loc ++ [name]) = some .directory)
      (h : Reaches fs (loc ++ [name]) rest found) : Reaches fs loc (name :: rest) found
  | file {loc : Location} {name : String} {content : ByteArray}
      (hname : ¬ (name = "" ∨ name = ".")) (hup : name ≠ "..")
      (hnode : fs.lookup (loc ++ [name]) = some (.file content)) :
      Reaches fs loc [name] (loc ++ [name])
  | link {loc found : Location} {name target : String} {rest : List String}
      (hname : ¬ (name = "" ∨ name = ".")) (hup : name ≠ "..")
      (hnode : fs.lookup (loc ++ [name]) = some (.link target))
      (h : Reaches fs (if Path.isAbsolute target then [] else loc) (Path.names target ++ rest)
        found) : Reaches fs loc (name :: rest) found

/-- **A regular file stands at a path**, or a link that leads to one. -/
def HasFile (fs : FileSystem) (path : String) : Prop :=
  Path.hasNul path = false ∧ path ≠ "" ∧
    ∃ loc content, fs.Reaches (fs.start path) (Path.names path) loc ∧
      fs.lookup loc = some (.file content)

/-! ## 2. What is found is there -/

theorem reaches_of_walkNames {jump : Location → List String → Except OsError Spot}
    (hjump : ∀ l names, jump l names = .ok (.found found) → fs.Reaches l names found)
    (h : fs.walkNames .follow jump loc names = .ok (.found found)) :
    fs.Reaches loc names found := by
  induction names generalizing loc with
  | nil =>
    cases h
    exact .here
  | cons name rest ih =>
    unfold walkNames at h
    split at h
    · next hname => exact .void hname (ih h)
    · next hname =>
      split at h
      · next hup =>
        subst hup
        exact .up (ih h)
      · next hup =>
        split at h
        · cases h
        · split at h
          · split at h <;> cases h
          · next hnode => exact .directory hname hup hnode (ih h)
          · next content hnode =>
            split at h
            · next hrest =>
              cases h
              subst hrest
              exact .file hname hup hnode
            · cases h
          · next target hnode =>
            rw [if_neg (by simp)] at h
            exact .link hname hup hnode (hjump _ _ h)

theorem reaches_of_walk {links : Nat} (h : fs.walk .follow links loc names = .ok (.found found)) :
    fs.Reaches loc names found := by
  induction links generalizing loc names with
  | zero => exact reaches_of_walkNames (fun _ _ hjump => by cases hjump) h
  | succ links ih => exact reaches_of_walkNames (fun _ _ hjump => ih hjump) h

/-- **A file that is found stands there.** -/
theorem hasFile_of_locate {content : ByteArray} (h : fs.locate path = .ok loc)
    (hfile : fs.lookup loc = some (.file content)) : fs.HasFile path := by
  unfold locate shortSpot spot at h
  split at h
  · next hspot =>
    cases h
    split at hspot
    · cases hspot
    · split at hspot
      · cases hspot
      · next hnul =>
        split at hspot
        · cases hspot
        · next hne =>
          exact ⟨Bool.eq_false_iff.mpr hnul, hne, loc, content, reaches_of_walk hspot, hfile⟩
  · cases h
  · cases h

/-! ## 3. What is there is found within the limits -/

/-- **The answers to what is beyond a limit**: a name or a path is too long, or there are too many
    links on the way. -/
def IsLimit (e : OsError) : Prop := e = .code Errno.nameTooLong ∨ e = .code Errno.tooManyLinks

/-- **The system does not get to a path**, for a limit is on the way. -/
def IsBeyondLimit (fs : FileSystem) (path : String) : Prop :=
  ∃ e, IsLimit e ∧ fs.locate path = .error e

/-- A walk ends where names lead, or at a limit. -/
def EndsWithin (found : Location) (end_ : Except OsError Spot) : Prop :=
  end_ = .ok (.found found) ∨ ∃ e, IsLimit e ∧ end_ = .error e

/-- A name is looked for unless it is too long. -/
theorem refusal?_follow (loc : Location) (name : String) (rest : List String) :
    Aim.follow.refusal? loc name rest = none ∨
      Aim.follow.refusal? loc name rest = some (.code Errno.nameTooLong) := by
  unfold Aim.refusal?
  rw [if_neg (by simp)]
  split
  · exact Or.inr rfl
  · exact Or.inl (if_neg (by simp))

/-- One name of a walk: what follows it decides, unless the name is too long. -/
theorem endsWithin_cons {jump : Location → List String → Except OsError Spot} {name : String}
    {rest : List String} (hname : ¬ (name = "" ∨ name = ".")) (hup : name ≠ "..")
    (h : Aim.follow.refusal? loc name rest = none →
      EndsWithin found (fs.walkNames .follow jump loc (name :: rest))) :
    EndsWithin found (fs.walkNames .follow jump loc (name :: rest)) := by
  rcases refusal?_follow loc name rest with hnone | hlong
  · exact h hnone
  · refine Or.inr ⟨_, Or.inl rfl, ?_⟩
    rw [walkNames, if_neg hname, if_neg hup, hlong]

theorem endsWithin_walkNames {jump : Location → List String → Except OsError Spot}
    (hjump : ∀ l names, fs.Reaches l names found → EndsWithin found (jump l names))
    (h : fs.Reaches loc names found) :
    EndsWithin found (fs.walkNames .follow jump loc names) := by
  induction h with
  | here => exact Or.inl rfl
  | void hname _ ih =>
    rw [walkNames, if_pos hname]
    exact ih hjump
  | up _ ih =>
    rw [walkNames, if_neg (by decide), if_pos rfl]
    exact ih hjump
  | directory hname hup hnode _ ih =>
    refine endsWithin_cons hname hup fun hshort => ?_
    rw [walkNames, if_neg hname, if_neg hup, hshort, hnode]
    exact ih hjump
  | file hname hup hnode =>
    refine endsWithin_cons hname hup fun hshort => Or.inl ?_
    rw [walkNames, if_neg hname, if_neg hup, hshort, hnode]
    rfl
  | link hname hup hnode h _ =>
    refine endsWithin_cons hname hup fun hshort => ?_
    rw [walkNames, if_neg hname, if_neg hup, hshort, hnode]
    dsimp only
    rw [if_neg (by simp)]
    exact hjump _ _ h

theorem endsWithin_walk (links : Nat) (h : fs.Reaches loc names found) :
    EndsWithin found (fs.walk .follow links loc names) := by
  induction links generalizing loc names with
  | zero => exact endsWithin_walkNames (fun _ _ _ => Or.inr ⟨_, Or.inr rfl, rfl⟩) h
  | succ links ih => exact endsWithin_walkNames (fun _ _ hreaches => ih hreaches) h

/-- A path that is too long is refused before anything is looked at. -/
theorem locate_of_long (hnul : Path.hasNul path = false) (hlong : longestPath < path.utf8ByteSize) :
    fs.locate path = .error (.code Errno.nameTooLong) := by
  unfold locate shortSpot
  rw [hnul, if_pos (by simp [hlong])]

/-- **A file that stands at a path is found, or the path is beyond a limit.** -/
theorem locate_of_hasFile (h : fs.HasFile path) :
    (∃ loc content, fs.locate path = .ok loc ∧ fs.lookup loc = some (.file content)) ∨
      fs.IsBeyondLimit path := by
  obtain ⟨hnul, hne, loc, content, hreaches, hfile⟩ := h
  by_cases hlong : longestPath < path.utf8ByteSize
  · exact Or.inr ⟨_, Or.inl rfl, locate_of_long hnul hlong⟩
  · have hspot : fs.shortSpot .follow path =
        fs.walk .follow mostLinks (fs.start path) (Path.names path) := by
      unfold shortSpot spot
      rw [if_neg (by simp [hlong]), hnul, if_neg (by simp), if_neg hne]
    unfold IsBeyondLimit locate
    rcases endsWithin_walk mostLinks hreaches with hfound | ⟨e, hlimit, herror⟩
    · rw [hspot, hfound]
      exact Or.inl ⟨loc, content, rfl, hfile⟩
    · rw [hspot, herror]
      exact Or.inr ⟨e, hlimit, rfl⟩

end SuiteDriver.FileSystem

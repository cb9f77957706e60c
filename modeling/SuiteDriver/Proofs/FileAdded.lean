import SuiteDriver.Proofs.OneRoot
import SuiteDriver.Proofs.FilesKept

/-!
# A tree that gains a file

A file is written where there was one, or where there was nothing. A walk that reached something
reaches it still. The walk that ended at the free place now finds the file there, and the walks that
had nothing to go on from there now meet a file, which is no directory: they fail as before, for
another reason. So every directory keeps its names.

* `FileSystem.Gains`: the two trees, and the location of the file;
* `FileSystem.Gains.spot`: how a path ends in the one and in the other;
* `FileSystem.Gains.locate_written`, `FileSystem.read_of_write`: what was written is found and read;
* `ProjectDir.Names.gains`: a directory is named by the same texts as before.
-/

namespace SuiteDriver

namespace FileSystem

/-! ## 1. Walks in both trees -/

/-- **A tree and the same with a file at a location**, where there was a file or nothing before. -/
structure Gains (loc : Location) (a b : FileSystem) : Prop where
  here : b.here = a.here
  accountHome : b.accountHome = a.accountHome
  elsewhere : ∀ other, other ≠ loc → b.lookup other = a.lookup other
  before : a.lookup loc = none ∨ ∃ content, a.lookup loc = some (.file content)
  there : ∃ content, b.lookup loc = some (.file content)

/-- **How a walk ends without the file and with it**: alike, or at the place of the file, or at the
    file where it had to go on. -/
inductive Seen (loc : Location) : Except OsError Spot → Except OsError Spot → Prop
  | same (spot : Except OsError Spot) : Seen loc spot spot
  | made : Seen loc (.ok (.free loc)) (.ok (.found loc))
  /-- Nothing was there to go on from, and a file is no directory. -/
  | blocked : Seen loc (.error (.code Errno.noEntry)) (.error (.code Errno.notDirectory))

theorem Seen.found {loc l : Location} {x y : Except OsError Spot} (h : Seen loc x y)
    (hx : x = .ok (.found l)) : y = .ok (.found l) := by
  cases h with
  | same => exact hx
  | made => cases hx
  | blocked => cases hx

namespace Gains

variable {loc : Location} {a b : FileSystem}

theorem walkNames (h : Gains loc a b) (aim : Aim)
    {jump jump' : Location → List String → Except OsError Spot}
    (hjump : ∀ l names, Seen loc (jump l names) (jump' l names)) (l : Location)
    (names : List String) :
    Seen loc (a.walkNames aim jump l names) (b.walkNames aim jump' l names) := by
  induction names generalizing l with
  | nil => exact .same _
  | cons name rest ih =>
    unfold FileSystem.walkNames
    split
    · exact ih l
    · split
      · exact ih l.dropLast
      · split
        · exact .same _
        · by_cases hloc : l ++ [name] = loc
          · obtain ⟨new, hnew⟩ := h.there
            rw [hloc, hnew]
            rcases h.before with hnone | ⟨old, hold⟩
            · rw [hnone]
              by_cases hrest : rest = []
              · simp only [hrest, ↓reduceIte]
                exact .made
              · simp only [hrest, ↓reduceIte]
                exact .blocked
            · rw [hold]
              exact .same _
          · rw [h.elsewhere _ hloc]
            cases a.lookup (l ++ [name]) with
            | none => exact .same _
            | some node =>
              cases node with
              | file content => exact .same _
              | directory => exact ih (l ++ [name])
              | link target =>
                dsimp only
                split
                · exact .same _
                · exact hjump _ _

theorem walk (h : Gains loc a b) (aim : Aim) (links : Nat) (l : Location) (names : List String) :
    Seen loc (a.walk aim links l names) (b.walk aim links l names) := by
  induction links generalizing l names with
  | zero => exact h.walkNames aim (fun _ _ => .same _) l names
  | succ links ih => exact h.walkNames aim ih l names

/-- **How a path ends in both trees.** -/
theorem spot (h : Gains loc a b) (aim : Aim) (path : String) :
    Seen loc (a.spot aim path) (b.spot aim path) := by
  unfold FileSystem.spot start
  rw [h.here]
  split
  · exact .same _
  · split
    · exact .same _
    · exact h.walk aim mostLinks _ _

theorem shortSpot (h : Gains loc a b) (aim : Aim) (path : String) :
    Seen loc (a.shortSpot aim path) (b.shortSpot aim path) := by
  unfold FileSystem.shortSpot
  split
  · exact .same _
  · exact h.spot aim path

theorem locate (h : Gains loc a b) {path : String} {l : Location} (hl : a.locate path = .ok l) :
    b.locate path = .ok l := by
  unfold FileSystem.locate at hl ⊢
  split at hl
  · next found hfound =>
    cases hl
    rw [(h.shortSpot .follow path).found hfound]
  · cases hl
  · cases hl

theorem lookup_directory (h : Gains loc a b) {l : Location} (hl : a.lookup l = some .directory) :
    b.lookup l = some .directory := by
  rw [h.elsewhere l, hl]
  rintro rfl
  rcases h.before with hnone | ⟨content, hfile⟩
  · rw [hnone] at hl
    cases hl
  · rw [hfile] at hl
    cases hl

/-- Every path that named something names something. -/
theorem hasEntry (h : Gains loc a b) {path : String} (hp : a.hasEntry path = true) :
    b.hasEntry path = true := by
  unfold FileSystem.hasEntry node? at hp ⊢
  cases hl : a.locate path with
  | error e =>
    rw [hl] at hp
    cases hp
  | ok l =>
    rw [hl] at hp
    rw [h.locate hl]
    by_cases hloc : l = loc
    · obtain ⟨content, hfile⟩ := h.there
      simp only [hloc, hfile, Option.isSome_some]
    · simpa only [h.elsewhere l hloc] using hp

/-- Every path that named a directory names that directory. -/
theorem isDirectory (h : Gains loc a b) {path : String} (hp : a.isDirectory path = true) :
    b.isDirectory path = true := by
  unfold FileSystem.isDirectory node? at hp ⊢
  cases hl : a.locate path with
  | error e =>
    rw [hl] at hp
    cases hp
  | ok l =>
    rw [hl] at hp
    rw [h.locate hl]
    dsimp only at hp ⊢
    have hdir : a.lookup l = some .directory := by
      cases hnode : a.lookup l with
      | none =>
        rw [hnode] at hp
        cases hp
      | some node =>
        rw [hnode] at hp
        cases node with
        | directory => rfl
        | file content => cases hp
        | link target => cases hp
    rw [h.lookup_directory hdir]
    rfl

theorem resolve (h : Gains loc a b) {path root : String} (hp : a.resolve path = .ok root) :
    b.resolve path = .ok root := by
  unfold FileSystem.resolve at hp ⊢
  split at hp
  · next found hfound =>
    cases hp
    rw [(h.spot .resolve path).found hfound]
  · cases hp
  · cases hp

end Gains

/-! ## 2. What a write leaves -/

/-- To look for a file that may be made only refuses more than to look for a file. -/
theorem walkNames_follow {fs : FileSystem}
    {jump jump' : Location → List String → Except OsError Spot}
    (hjump : ∀ l names spot, jump l names = .ok spot → jump' l names = .ok spot) {l : Location}
    {names : List String} {spot : Spot} (h : fs.walkNames .create jump l names = .ok spot) :
    fs.walkNames .follow jump' l names = .ok spot := by
  induction names generalizing l with
  | nil => exact h
  | cons name rest ih =>
    unfold walkNames at h ⊢
    split at h
    · next hvoid =>
      rw [if_pos hvoid]
      exact ih h
    · next hvoid =>
      rw [if_neg hvoid]
      split at h
      · next hup =>
        rw [if_pos hup]
        exact ih h
      · next hup =>
        rw [if_neg hup]
        split at h
        · cases h
        · next hallowed =>
          have hshort : Aim.follow.refusal? l name rest = none := by
            unfold Aim.refusal? at hallowed ⊢
            split at hallowed
            · cases hallowed
            · simpa using hallowed
          rw [hshort]
          dsimp only
          split at h
          · exact h
          · exact ih h
          · exact h
          · rw [if_neg (by simp)] at h ⊢
            exact hjump _ _ _ h

theorem walk_follow {fs : FileSystem} {links : Nat} {l : Location} {names : List String}
    {spot : Spot} (h : fs.walk .create links l names = .ok spot) :
    fs.walk .follow links l names = .ok spot := by
  induction links generalizing l names spot with
  | zero => exact walkNames_follow (fun _ _ _ hjump => by cases hjump) h
  | succ links ih => exact walkNames_follow (fun _ _ _ hjump => ih hjump) h

theorem shortSpot_follow {fs : FileSystem} {path : String} {spot : Spot}
    (h : fs.shortSpot .create path = .ok spot) : fs.shortSpot .follow path = .ok spot := by
  unfold shortSpot FileSystem.spot at h ⊢
  split at h
  · cases h
  · next hshort =>
    rw [if_neg hshort]
    split at h
    · cases h
    · next hnul =>
      rw [if_neg hnul]
      split at h
      · cases h
      · next hne =>
        rw [if_neg hne]
        exact walk_follow h

section

variable {a b : FileSystem} {loc : Location} {path text : String}

/-- A tree in which a file was written has gained it. -/
theorem gains_of_write (h : a.write path text = .ok b) :
    ∃ loc, a.Leads path loc ∧ OneFile a loc text.toUTF8 b ∧ Gains loc a b := by
  obtain ⟨loc, hleads, hone, hbefore⟩ := oneFile_of_writeBytes h
  exact ⟨loc, hleads, hone, hone.here, hone.accountHome, hone.elsewhere, hbefore, _, hone.there⟩

/-- **The path by which a file was written names that file.** -/
theorem Gains.locate_written (h : Gains loc a b) (hleads : a.Leads path loc) :
    b.locate path = .ok loc := by
  obtain ⟨content, hthere⟩ := h.there
  have hcreate : b.shortSpot .create path = .ok (.found loc) := by
    have hseen := h.shortSpot .create path
    rcases hleads with hfound | hfree
    · exact hseen.found hfound
    · generalize hb : b.shortSpot .create path = found at hseen
      rw [hfree] at hseen
      cases hseen with
      | made => rfl
      | same =>
        -- the place is no longer free
        rw [lookup_eq_none_of_shortSpot hb] at hthere
        cases hthere
  unfold FileSystem.locate
  rw [shortSpot_follow hcreate]

/-- A path leads to no other place than before. -/
theorem Gains.leads (h : Gains loc a b) {l : Location} (hl : b.Leads path l) : a.Leads path l := by
  have hseen := h.shortSpot .create path
  unfold Leads at hl ⊢
  generalize a.shortSpot .create path = x at hseen
  generalize b.shortSpot .create path = y at hseen hl
  cases hseen with
  | same => exact hl
  | made =>
    rcases hl with hfound | hfree
    · cases hfound
      exact Or.inr rfl
    · cases hfree
  | blocked =>
    rcases hl with hfound | hfree
    · cases hfound
    · cases hfree

/-- **What was written is read**, by the same path. -/
theorem read_of_write (h : a.write path text = .ok b) : b.read path = .ok text := by
  obtain ⟨loc, hleads, hone, hgains⟩ := gains_of_write h
  exact read_of_text (hgains.locate_written hleads) hone.there

theorem node?_of_write (h : a.write path text = .ok b) :
    b.node? path = some (.file text.toUTF8) := by
  obtain ⟨loc, hleads, hone, hgains⟩ := gains_of_write h
  unfold node?
  rw [hgains.locate_written hleads]
  exact hone.there

end

end FileSystem

/-- **A directory is named by the same texts as before** a file was made. -/
theorem ProjectDir.Names.gains {env : Environment} {a b : FileSystem} {loc : Location}
    {base raw root : String} (h : Names env a base raw root) (hab : FileSystem.Gains loc a b) :
    Names env b base raw root := by
  obtain ⟨expanded, hfull, hresolve, hdir⟩ := h
  exact ⟨expanded, hab.accountHome ▸ hfull, hab.resolve hresolve, hab.isDirectory hdir⟩

end SuiteDriver

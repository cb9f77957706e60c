import SuiteDriver.Proofs.FileAdded

/-!
# Configurations that are written again

The program is called again and again to write a configuration into one directory. A call that is
not forced leaves alone what is there; a call that writes leaves the standard text; no call changes
another file than the one that the path of the configuration leads to; and once a call has
succeeded, only a call that is forced changes anything.

* `Call.Inits`, `Call.InOneDirectory`: calls that ask for a configuration, in one directory;
* `Call.does_exit`: what one such call does;
* `Call.Does.since`, `Call.since_filesAfter`: what it keeps, and what all of them keep;
* `Program.inits_never_destroy`: no configuration is destroyed.
-/

namespace SuiteDriver

open ProjectDir (Names)

/-- Where the configuration of a directory is. -/
def ConfigFile.standardPath (root : String) : String := Path.join root standardName

/-- A call of the program. -/
structure Call where
  env : Environment
  words : List String

namespace Call

open ConfigFile (standardPath standardText)

/-! ## 1. Calls for a configuration -/

/-- What comes of a call, on the files of its moment. -/
def exit (launcher : Launcher) (now : FileSystem) (c : Call) : Exit :=
  Program.run ⟨c.env, now, launcher⟩ c.words

/-- The files after calls, one after the other. -/
def filesAfter (launcher : Launcher) (files : FileSystem) (calls : List Call) : FileSystem :=
  calls.foldl (fun now c => (c.exit launcher now).files) files

/-- The call asks for a configuration in a directory, forced or not. -/
def Inits (c : Call) (dir : String) (force : Bool) : Prop :=
  ∃ a, CommandLine.parse c.words = .ok a ∧ a.init = some force ∧ a.projectDir.getD "." = dir

/-- **Calls for a configuration in one directory**, one after the other. However each of them writes
    the directory, at its moment that names this one, or none. -/
def InOneDirectory (launcher : Launcher) (root : String) : FileSystem → List Call → Prop
  | _, [] => True
  | now, c :: cs =>
    (∃ dir force, c.Inits dir force ∧ ∀ r, Names c.env now "." dir r → r = root) ∧
      InOneDirectory launcher root (c.exit launcher now).files cs

/-- **What one such call does**, on the files of its moment. -/
inductive Does (env : Environment) (dir root : String) (force : Bool) (now : FileSystem) :
    Exit → Prop
  | failed {x : Exit} (hfiles : x.files = now) (hstatus : x.status = Program.failure)
      (hsaid : ∀ line, .said line ∉ x.events)
      (hopen : Names env now "." dir root →
        force = true ∨ now.hasEntry (standardPath root) = false) :
      Does env dir root force now x
  | left {x : Exit} (hforce : force = false) (hthere : now.hasEntry (standardPath root) = true)
      (hfiles : x.files = now) (hstatus : x.status = Program.success)
      (hsaid : ∀ line, .said line ∈ x.events ↔ line = .configExists (standardPath root))
      (hstdout : x.stdout =
        (Console.Line.configExists (standardPath root)).render x.language x.colours) :
      Does env dir root force now x
  | written {x : Exit} (hallowed : force = true ∨ now.hasEntry (standardPath root) = false)
      (hwrite : now.write (standardPath root) standardText = .ok x.files)
      (hstatus : x.status = Program.success)
      (hsaid : ∀ line, .said line ∈ x.events ↔ line = .configWritten (standardPath root)) :
      Does env dir root force now x

variable {c : Call} {dir root : String} {force : Bool} {now : FileSystem}

theorem does_exit (launcher : Launcher) (h : c.Inits dir force)
    (hone : ∀ r, Names c.env now "." dir r → r = root) :
    Does c.env dir root force now (c.exit launcher now) := by
  obtain ⟨a, hparse, hinit, rfl⟩ := h
  have hexit : c.exit launcher now = _ := Program.run_of_init hparse hinit
  rw [hexit]
  have hends := InitCommand.ends_execute ⟨c.env, now⟩
    (Language.choose c.env (CommandLine.requestedLanguage c.words)) a.projectDir force
  unfold Host.surroundings
  dsimp only
  generalize InitCommand.execute _ _ a.projectDir force = p at hends
  cases hends with
  | unresolved hroot =>
    refine .failed rfl rfl (by simp [Program.performed, Performance.refused]) fun hnames => ?_
    rw [ProjectDir.resolve_eq_ok_iff.mpr hnames] at hroot
    cases hroot
  | left hroot hforce hthere =>
    obtain rfl := hone _ (ProjectDir.resolve_eq_ok_iff.mp hroot)
    refine .left hforce hthere rfl rfl (by simp [Program.performed, standardPath]) ?_
    unfold Program.performed Exit.stdout
    rw [outputOf_logged]
    simp [outputOf, Event.output, standardPath]
  | unwritten hroot hallowed hwrite =>
    obtain rfl := hone _ (ProjectDir.resolve_eq_ok_iff.mp hroot)
    exact .failed rfl rfl (by simp [Program.performed, Performance.refused]) fun _ => hallowed
  | written hroot hallowed hwrite =>
    obtain rfl := hone _ (ProjectDir.resolve_eq_ok_iff.mp hroot)
    exact .written hallowed hwrite rfl (by simp [Program.performed, standardPath])

/-! ## 2. What calls keep -/

/-- **What is kept from some files to later ones**, whatever calls for a configuration at a path
    there were in between. -/
structure Since (path : String) (files now : FileSystem) : Prop where
  elsewhere : ∀ other, ¬ files.Leads path other → now.lookup other = files.lookup other
  leads : ∀ loc, now.Leads path loc → files.Leads path loc
  hasEntry : files.hasEntry path = true → now.hasEntry path = true
  names : ∀ env base raw root, Names env files base raw root → Names env now base raw root

theorem Since.refl (path : String) (files : FileSystem) : Since path files files :=
  ⟨fun _ _ => rfl, fun _ => id, id, fun _ _ _ _ => id⟩

theorem Since.trans {path : String} {a b c : FileSystem} (hab : Since path a b)
    (hbc : Since path b c) : Since path a c where
  elsewhere other hother := by
    rw [hbc.elsewhere other fun hb => hother (hab.leads other hb), hab.elsewhere other hother]
  leads loc hloc := hab.leads loc (hbc.leads loc hloc)
  hasEntry ha := hbc.hasEntry (hab.hasEntry ha)
  names env base raw root ha := hbc.names env base raw root (hab.names env base raw root ha)

theorem Since.of_write {path text : String} {files now : FileSystem}
    (h : files.write path text = .ok now) : Since path files now := by
  obtain ⟨loc, hleads, hone, hgains⟩ := FileSystem.gains_of_write h
  refine ⟨fun other hother => hone.elsewhere other ?_, fun l hl => hgains.leads hl,
    hgains.hasEntry, fun _ _ _ _ hnames => hnames.gains hgains⟩
  rintro rfl
  exact hother hleads

variable {env : Environment} {x : Exit}

/-- **One call keeps all this.** -/
theorem Does.since (h : Does env dir root force now x) : Since (standardPath root) now x.files := by
  cases h with
  | failed hfiles => exact hfiles ▸ Since.refl _ _
  | left _ _ hfiles => exact hfiles ▸ Since.refl _ _
  | written _ hwrite => exact Since.of_write hwrite

/-- After a call that succeeded there is a configuration. -/
theorem Does.hasEntry (h : Does env dir root force now x) (hstatus : x.status = Program.success) :
    x.files.hasEntry (standardPath root) = true := by
  cases h with
  | failed _ hfailure =>
    rw [hfailure] at hstatus
    cases hstatus
  | left _ hthere hfiles => exact hfiles ▸ hthere
  | written _ hwrite =>
    unfold FileSystem.hasEntry
    rw [FileSystem.node?_of_write hwrite]
    rfl

/-- Where there is a configuration, a call that is not forced changes nothing. -/
theorem Does.files_eq (h : Does env dir root force now x) (hforce : force = false)
    (hthere : now.hasEntry (standardPath root) = true) : x.files = now := by
  cases h with
  | failed hfiles => exact hfiles
  | left _ _ hfiles => exact hfiles
  | written hallowed =>
    rw [hforce, hthere] at hallowed
    rcases hallowed with h | h <;> cases h

variable {launcher : Launcher} {files : FileSystem} {calls : List Call}

/-- **All calls in one directory keep it.** -/
theorem since_filesAfter (h : InOneDirectory launcher root files calls) :
    Since (standardPath root) files (filesAfter launcher files calls) := by
  induction calls generalizing files with
  | nil => exact Since.refl _ _
  | cons c cs ih =>
    obtain ⟨⟨dir, force, hinits, hone⟩, hrest⟩ := h
    exact (does_exit launcher hinits hone).since.trans (ih hrest)

theorem inOneDirectory_append {earlier later : List Call} :
    InOneDirectory launcher root files (earlier ++ later) ↔
      InOneDirectory launcher root files earlier ∧
        InOneDirectory launcher root (filesAfter launcher files earlier) later := by
  induction earlier generalizing files with
  | nil => exact ⟨fun h => ⟨trivial, h⟩, fun h => h.2⟩
  | cons c cs ih =>
    rw [List.cons_append, InOneDirectory, InOneDirectory, ih, and_assoc]
    rfl

/-- Calls whose directories are all the same at first are in one directory at their moments. -/
theorem inOneDirectory_of_names
    (h : ∀ c ∈ calls, ∃ dir force, c.Inits dir force ∧ Names c.env files "." dir root) :
    InOneDirectory launcher root files calls := by
  induction calls generalizing files with
  | nil => trivial
  | cons c cs ih =>
    obtain ⟨⟨dir, force, hinits, hnames⟩, hrest⟩ := List.forall_mem_cons.mp h
    have hone : ∀ r, Names c.env files "." dir r → r = root := fun r hr => hr.unique hnames
    have hsince := (does_exit launcher hinits hone).since
    refine ⟨⟨dir, force, hinits, hone⟩, ih fun d hd => ?_⟩
    obtain ⟨dir', force', hinits', hnames'⟩ := hrest d hd
    exact ⟨dir', force', hinits', hsince.names _ _ _ _ hnames'⟩

theorem Inits.unique {dir' : String} {force' : Bool} (h : c.Inits dir force)
    (h' : c.Inits dir' force') : dir = dir' ∧ force = force' := by
  obtain ⟨a, hparse, hinit, hdir⟩ := h
  obtain ⟨a', hparse', hinit', hdir'⟩ := h'
  rw [hparse] at hparse'
  cases hparse'
  rw [hinit] at hinit'
  cases hinit'
  exact ⟨hdir.symm.trans hdir', rfl⟩

end Call

/-! ## 3. Nothing is destroyed -/

namespace Program

open Call
open ConfigFile (standardPath standardText)

/-- **No configuration is destroyed.** The program is called again and again for a configuration in
    one directory, with force or without. A call without force changes nothing where something is at
    the path of the configuration, tells that it is there, and succeeds. A call that tells that it
    wrote the configuration left the standard text there and, without force, found nothing there
    before; a call that does not tell so changed nothing. No location but the one that the path led
    to at first is ever changed. After a call that succeeded, no call without force changes
    anything. -/
theorem inits_never_destroy (launcher : Launcher) (root : String) (files : FileSystem)
    (calls : List Call) (hcalls : InOneDirectory launcher root files calls)
    (earlier later : List Call) (c : Call) (hsplit : calls = earlier ++ c :: later) (dir : String)
    (force : Bool) (hinits : c.Inits dir force) :
    let path := standardPath root
    let now := filesAfter launcher files earlier
    let x := c.exit launcher now
    (force = false → Names c.env now "." dir root → now.hasEntry path = true →
      x.files = now ∧ x.status = 0 ∧
      (∀ line, .said line ∈ x.events ↔ line = .configExists path) ∧
      x.stdout = (Console.Line.configExists path).render x.language x.colours) ∧
    (∀ told, .said (.configWritten told) ∈ x.events →
      told = path ∧ x.files.read path = .ok standardText ∧
      (force = false → now.hasEntry path = false)) ∧
    (x.files ≠ now → .said (.configWritten path) ∈ x.events) ∧
    (∀ other, ¬ files.Leads path other → x.files.lookup other = files.lookup other) ∧
    ((∃ before d after, earlier = before ++ d :: after ∧
        (d.exit launcher (filesAfter launcher files before)).status = 0) →
      force = false → x.files = now) := by
  intro path now x
  subst hsplit
  obtain ⟨hearlier, ⟨_, _, hinits', hone⟩, -⟩ := inOneDirectory_append.mp hcalls
  obtain ⟨rfl, rfl⟩ := hinits'.unique hinits
  have hdoes : Does c.env _ root _ now x := does_exit launcher hinits hone
  refine ⟨fun hforce hnames hthere => ?_, fun told htold => ?_, fun hchanged => ?_,
    fun other hother => ?_, ?_⟩
  · cases hdoes with
    | failed _ _ _ hopen =>
      rcases hopen hnames with h | h
      · rw [hforce] at h
        cases h
      · rw [hthere] at h
        cases h
    | left _ _ hfiles hstatus hsaid hstdout => exact ⟨hfiles, hstatus, hsaid, hstdout⟩
    | written hallowed =>
      rcases hallowed with h | h
      · rw [hforce] at h
        cases h
      · rw [hthere] at h
        cases h
  · cases hdoes with
    | failed _ _ hsaid => exact absurd htold (hsaid _)
    | left _ _ _ _ hsaid => cases (hsaid _).mp htold
    | written hallowed hwrite _ hsaid =>
      cases (hsaid _).mp htold
      exact ⟨rfl, FileSystem.read_of_write hwrite,
        fun hforce => hallowed.resolve_left (by simp [hforce])⟩
  · cases hdoes with
    | failed hfiles => exact absurd hfiles hchanged
    | left _ _ hfiles => exact absurd hfiles hchanged
    | written _ _ _ hsaid => exact (hsaid _).mpr rfl
  · exact ((since_filesAfter hearlier).trans hdoes.since).elsewhere other hother
  · rintro ⟨before, d, after, rfl, hstatus⟩ hforce
    -- the configuration is there since that call, whatever came after it
    obtain ⟨-, ⟨_, _, hinitsd, honed⟩, hafter⟩ := inOneDirectory_append.mp hearlier
    have hthere := (does_exit launcher hinitsd honed).hasEntry hstatus
    refine hdoes.files_eq hforce ?_
    have hnow : now = filesAfter launcher (d.exit launcher (filesAfter launcher files before)).files
        after := by
      show filesAfter launcher files (before ++ d :: after) = _
      unfold filesAfter
      rw [List.foldl_append, List.foldl_cons]
    rw [hnow]
    exact (since_filesAfter hafter).hasEntry hthere

/-- Three calls where the path of the configuration is a link to a place that is free. The first
    call writes there, and only there; the second is forced to write; the third leaves all alone. -/
theorem inits_never_destroy_through_link :
    let files : FileSystem :=
      ⟨[(["TestDriver.toml"], .link "conf/driver.toml"), (["conf"], .directory)], [], none⟩
    let launcher := Rehearsal.Script.launcher []
    let first : Call := ⟨[], ["init"]⟩
    let forced : Call := ⟨[], ["init", "--force"]⟩
    let last : Call := ⟨[], ["--project-dir", ".", "init"]⟩
    let written := filesAfter launcher files [first]
    let now := filesAfter launcher files [first, forced]
    let path := standardPath "/"
    path = "/TestDriver.toml" ∧ (first.exit launcher files).status = 0 ∧
    files.hasEntry path = false ∧ written.read path = .ok standardText ∧
    (∀ other, ¬ files.Leads path other → now.lookup other = files.lookup other) ∧
    (last.exit launcher now).files = now := by
  intro files launcher first forced last written now path
  have hnames : Names [] files "." "." "/" :=
    ProjectDir.resolve_eq_ok_iff.mp (ProjectDir.resolve_point [] files.nodes none .english)
  have hinits : first.Inits "." false := ⟨_, rfl, rfl, rfl⟩
  have hforced : forced.Inits "." true := ⟨_, rfl, rfl, rfl⟩
  have hlast : last.Inits "." false := ⟨_, rfl, rfl, rfl⟩
  have hcalls : InOneDirectory launcher "/" files [first, forced, last] := by
    refine inOneDirectory_of_names ?_
    simp only [List.forall_mem_cons, List.not_mem_nil, IsEmpty.forall_iff, implies_true, and_true]
    exact ⟨⟨_, _, hinits, hnames⟩, ⟨_, _, hforced, hnames⟩, ⟨_, _, hlast, hnames⟩⟩
  have hfirst : first.exit launcher files = performed ⟨[], files, launcher⟩ .english false
      (fun _ => success) (InitCommand.execute ⟨[], files⟩ .english none false) := rfl
  have hsaid : Event.said (.configWritten path) ∈ (first.exit launcher files).events := by
    rw [hfirst]
    unfold performed InitCommand.execute
    rw [Option.getD_none, ProjectDir.resolve_point]
    exact List.mem_cons_of_mem _ (List.mem_singleton_self _)
  have hstatus : (first.exit launcher files).status = 0 := by
    rw [hfirst]
    unfold performed InitCommand.execute
    rw [Option.getD_none, ProjectDir.resolve_point]
    rfl
  obtain ⟨-, htold, -, -, -⟩ := inits_never_destroy launcher "/" files _ hcalls
    [] [forced, last] first rfl "." false hinits
  obtain ⟨-, hread, hfree⟩ := htold path hsaid
  obtain ⟨-, -, -, helse, -⟩ := inits_never_destroy launcher "/" files _ hcalls
    [first] [last] forced rfl "." true hforced
  obtain ⟨-, -, -, -, hkept⟩ := inits_never_destroy launcher "/" files _ hcalls
    [first, forced] [] last rfl "." false hlast
  exact ⟨rfl, hstatus, hfree rfl, hread, helse,
    hkept ⟨[], first, [forced], rfl, hstatus⟩ rfl⟩

end Program

end SuiteDriver

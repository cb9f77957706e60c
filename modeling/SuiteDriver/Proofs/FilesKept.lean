import SuiteDriver.Proofs.FileContents
import SuiteDriver.Proofs.Status

/-!
# The files that the program leaves alone

The program writes at one point only, where it is asked for a configuration to start with. What it
writes there is one file, and it leaves alone what is there unless it is forced. A plan that is only
shown writes nothing; but the flag for it is one of the default command, and where a configuration
is to be written it has no say.

* `FileSystem.Leads`, `FileSystem.OneFile`: where a path leads to, and a tree changed there only;
* `FileSystem.oneFile_of_writeBytes`: a write changes the file that its path leads to;
* `InitCommand.ends_execute`, `InitCommand.writes_or_leaves`: how the command that writes a
  configuration ends, and what it does to the files;
* `Program.run_dry_changes_one_file`: what a command line with the flag for a dry run does to them;
* `Program.run_dry_init_writes`: it does write, if it asks for a configuration.
-/

namespace SuiteDriver

/-! ## 1. What a write changes -/

namespace FileSystem

/-- Where a path leads to a file, or to a place where one can be made. -/
def Leads (fs : FileSystem) (path : String) (loc : Location) : Prop :=
  fs.shortSpot .create path = .ok (.found loc) ∨ fs.shortSpot .create path = .ok (.free loc)

/-- **A tree in which one file was written**, and which is the same at every other place. -/
structure OneFile (before : FileSystem) (loc : Location) (content : ByteArray)
    (after : FileSystem) : Prop where
  here : after.here = before.here
  accountHome : after.accountHome = before.accountHome
  there : after.lookup loc = some (.file content)
  elsewhere : ∀ other, other ≠ loc → after.lookup other = before.lookup other

theorem oneFile_insert (fs : FileSystem) {loc : Location} (hloc : loc ≠ []) (content : ByteArray) :
    OneFile fs loc content (fs.insert loc (.file content)) where
  here := rfl
  accountHome := rfl
  there := by rw [lookup_insert fs loc loc _ hloc, if_pos rfl]
  elsewhere other hne := by
    by_cases hroot : other = []
    · subst hroot
      rfl
    · rw [lookup_insert fs loc other _ hroot, if_neg hne]

/-- Nothing stands at a free place. -/
theorem lookup_eq_none_of_walkNames {fs : FileSystem} {aim : Aim}
    {jump : Location → List String → Except OsError Spot}
    (hjump : ∀ l names loc, jump l names = .ok (.free loc) → fs.lookup loc = none)
    {l loc : Location} {names : List String}
    (h : fs.walkNames aim jump l names = .ok (.free loc)) : fs.lookup loc = none := by
  induction names generalizing l with
  | nil => cases h
  | cons name rest ih =>
    unfold walkNames at h
    split at h
    · exact ih h
    · split at h
      · exact ih h
      · split at h
        · cases h
        · split at h
          · next hnone =>
            split at h
            · cases h
              exact hnone
            · cases h
          · exact ih h
          · split at h <;> cases h
          · split at h
            · cases h
            · exact hjump _ _ _ h

theorem lookup_eq_none_of_walk {fs : FileSystem} {aim : Aim} {links : Nat} {l loc : Location}
    {names : List String} (h : fs.walk aim links l names = .ok (.free loc)) :
    fs.lookup loc = none := by
  induction links generalizing l names loc with
  | zero => exact lookup_eq_none_of_walkNames (fun _ _ _ hjump => by cases hjump) h
  | succ links ih => exact lookup_eq_none_of_walkNames (fun _ _ _ hjump => ih hjump) h

theorem lookup_eq_none_of_shortSpot {fs : FileSystem} {aim : Aim} {path : String} {loc : Location}
    (h : fs.shortSpot aim path = .ok (.free loc)) : fs.lookup loc = none := by
  unfold shortSpot spot at h
  repeat' split at h
  all_goals first | cases h | exact lookup_eq_none_of_walk h

/-- **A write changes the file that its path leads to, and nothing else.** Before there was a file
    or nothing. -/
theorem oneFile_of_writeBytes {fs after : FileSystem} {path : String} {content : ByteArray}
    (h : fs.writeBytes path content = .ok after) :
    ∃ loc, fs.Leads path loc ∧ OneFile fs loc content after ∧
      (fs.lookup loc = none ∨ ∃ old, fs.lookup loc = some (.file old)) := by
  unfold writeBytes at h
  split at h
  · cases h
  · next loc hspot =>
    cases h
    have hnone := lookup_eq_none_of_shortSpot hspot
    have hloc : loc ≠ [] := by
      rintro rfl
      cases hnone
    exact ⟨loc, Or.inr hspot, oneFile_insert fs hloc content, Or.inl hnone⟩
  · next loc hspot =>
    split at h
    · next old hold =>
      cases h
      have hloc : loc ≠ [] := by
        rintro rfl
        cases hold
      exact ⟨loc, Or.inl hspot, oneFile_insert fs hloc content, Or.inr ⟨old, hold⟩⟩
    · cases h

end FileSystem

/-! ## 2. What the commands change -/

namespace InitCommand

/-- **The four ways in which the command that writes a configuration ends.** -/
inductive Ends (s : Surroundings) (language : Language) (projectDir : Option String)
    (force : Bool) : Performance Unit → Prop
  | unresolved {e : Fault}
      (hroot : ProjectDir.resolve s.env s.files language (projectDir.getD ".") "." = .error e) :
      Ends s language projectDir force (Performance.refused language s.files e)
  | left {root : String}
      (hroot : ProjectDir.resolve s.env s.files language (projectDir.getD ".") "." = .ok root)
      (hforce : force = false)
      (hthere : s.files.hasEntry (Path.join root ConfigFile.standardName) = true) :
      Ends s language projectDir force ⟨language,
        [.said (.configExists (Path.join root ConfigFile.standardName))], .ok (), s.files⟩
  | unwritten {root : String} {e : OsError}
      (hroot : ProjectDir.resolve s.env s.files language (projectDir.getD ".") "." = .ok root)
      (hallowed : force = true ∨
        s.files.hasEntry (Path.join root ConfigFile.standardName) = false)
      (hwrite : s.files.write (Path.join root ConfigFile.standardName) ConfigFile.standardText =
        .error e) :
      Ends s language projectDir force (Performance.refused language s.files
        ⟨[(language, .configWriteFailed (Path.join root ConfigFile.standardName))], .system e⟩)
  | written {root : String} {after : FileSystem}
      (hroot : ProjectDir.resolve s.env s.files language (projectDir.getD ".") "." = .ok root)
      (hallowed : force = true ∨
        s.files.hasEntry (Path.join root ConfigFile.standardName) = false)
      (hwrite : s.files.write (Path.join root ConfigFile.standardName) ConfigFile.standardText =
        .ok after) :
      Ends s language projectDir force ⟨language,
        [.said (.configWritten (Path.join root ConfigFile.standardName))], .ok (), after⟩

theorem ends_execute (s : Surroundings) (language : Language) (projectDir : Option String)
    (force : Bool) :
    Ends s language projectDir force (execute s language projectDir force) := by
  unfold execute
  cases hroot : ProjectDir.resolve s.env s.files language (projectDir.getD ".") "." with
  | error e => exact .unresolved hroot
  | ok root =>
    unfold ConfigFile.write
    dsimp only
    by_cases hguard :
        (s.files.hasEntry (Path.join root ConfigFile.standardName) && !force) = true
    · rw [if_pos hguard]
      rw [Bool.and_eq_true, Bool.not_eq_true'] at hguard
      exact .left hroot hguard.2 hguard.1
    · rw [if_neg hguard]
      have hallowed : force = true ∨
          s.files.hasEntry (Path.join root ConfigFile.standardName) = false := by
        cases force with
        | true => exact Or.inl rfl
        | false => exact Or.inr (by simpa using hguard)
      cases hwrite : s.files.write (Path.join root ConfigFile.standardName)
          ConfigFile.standardText with
      | error e => exact .unwritten hroot hallowed hwrite
      | ok after => exact .written hroot hallowed hwrite

/-- **The files after the command that writes a configuration**: as before, or with one file
    written, where the path of the standard configuration leads, and only if it was forced or
    nothing was there. -/
inductive Files (s : Surroundings) (language : Language) (projectDir : Option String)
    (force : Bool) : FileSystem → Prop
  | kept : Files s language projectDir force s.files
  | written {root : String} {loc : Location} {after : FileSystem}
      (hroot : ProjectDir.resolve s.env s.files language (projectDir.getD ".") "." = .ok root)
      (hallowed : force = true ∨
        s.files.hasEntry (Path.join root ConfigFile.standardName) = false)
      (hleads : s.files.Leads (Path.join root ConfigFile.standardName) loc)
      (hafter : s.files.OneFile loc ConfigFile.standardText.toUTF8 after) :
      Files s language projectDir force after

theorem writes_or_leaves (s : Surroundings) (language : Language) (projectDir : Option String)
    (force : Bool) :
    Files s language projectDir force (execute s language projectDir force).files := by
  have hends := ends_execute s language projectDir force
  generalize execute s language projectDir force = p at hends
  cases hends with
  | unresolved => exact .kept
  | left => exact .kept
  | unwritten => exact .kept
  | written hroot hallowed hwrite =>
    obtain ⟨loc, hleads, hafter, -⟩ := FileSystem.oneFile_of_writeBytes hwrite
    exact .written hroot hallowed hleads hafter

end InitCommand

/-- A plan that is shown launches nothing and changes no file, nor does a setup that fails. -/
theorem RunCommand.idle_execute_of_dryRun (options : RunOptions) (hdry : options.dryRun = true)
    (s : Surroundings) (launcher : Launcher) (language : Language) :
    launchesOf (execute s launcher language options).events = [] ∧
      (execute s launcher language options).files = s.files := by
  unfold execute
  split
  · exact ⟨rfl, rfl⟩
  · next chosen setup hprepare =>
    rw [launchesOf_carryOut, hdry]
    exact ⟨rfl, rfl⟩

/-! ## 3. Dry runs -/

namespace Program

open CommandLine

/-- **A dry run launches nothing, and writes nothing but what it is asked to write.** Whatever else
    is on a command line with the flag, it launches no process. Without the subcommand it changes no
    file. With the subcommand the flag has no say: the same is done as without it, so at most the
    one configuration is written, and this only if it is forced or nothing is there. -/
theorem run_dry_changes_one_file (h : Host) (words : List String) (a : Args)
    (hparse : parse words = .ok a) (hdry : a.dryRun = true) :
    let x := run h words
    x.launches = [] ∧
    (a.init = none → x.files = h.files) ∧
    ∀ force, a.init = some force →
      (∀ plain, parse plain = .ok { a with dryRun := false } →
        requestedLanguage plain = requestedLanguage words → run h plain = x) ∧
      InitCommand.Files h.surroundings (Language.choose h.env (requestedLanguage words))
        a.projectDir force x.files := by
  intro x
  cases hinit : a.init with
  | none =>
    obtain ⟨hlaunches, hfiles⟩ := RunCommand.idle_execute_of_dryRun (runOptions a)
      hdry h.surroundings h.launcher (Language.choose h.env (requestedLanguage words))
    have hx : x = _ := run_of_default hparse hinit
    rw [hx]
    exact ⟨hlaunches, fun _ => hfiles, nofun⟩
  | some force =>
    have hx : x = _ := run_of_init hparse hinit
    rw [hx]
    refine ⟨InitCommand.launchesOf_execute .., nofun, ?_⟩
    rintro _ ⟨⟩
    refine ⟨fun plain hplain hlanguage => ?_, InitCommand.writes_or_leaves ..⟩
    rw [run_of_init hplain rfl, hlanguage]

/-- On a host without any file a dry run leaves it so, and where a configuration is to be written it
    writes that one. -/
theorem run_dry_changes_one_file_on_empty_host :
    let host : Host := ⟨[], ⟨[], [], none⟩, Rehearsal.Script.launcher []⟩
    (run host ["--dry-run", "--variant=sync"]).launches = [] ∧
    (run host ["--dry-run", "--variant=sync"]).files = host.files ∧
    InitCommand.Files host.surroundings .english none false (run host ["--dry-run", "init"]).files ∧
    run host ["init"] = run host ["--dry-run", "init"] := by
  intro host
  obtain ⟨hlaunches, hfiles, -⟩ := run_dry_changes_one_file host ["--dry-run", "--variant=sync"]
    ⟨none, false, none, none, some .sync, true, none⟩ rfl rfl
  obtain ⟨-, -, hinit⟩ := run_dry_changes_one_file host ["--dry-run", "init"]
    ⟨none, false, none, none, none, true, some false⟩ rfl rfl
  obtain ⟨hplain, hwritten⟩ := hinit false rfl
  exact ⟨hlaunches, hfiles rfl, hwritten, hplain ["init"] rfl rfl⟩

/-- **The flag for a dry run does not keep a configuration from being written**: it is accepted in
    front of the subcommand, and then there is a file where there was none. -/
theorem run_dry_init_writes :
    let host : Host := ⟨[], ⟨[], [], none⟩, Rehearsal.Script.launcher []⟩
    let words := ["--dry-run", "init"]
    ∃ a, parse words = .ok a ∧ a.dryRun = true ∧
      host.files.lookup ["TestDriver.toml"] = none ∧
      (run host words).files.lookup ["TestDriver.toml"] =
        some (.file ConfigFile.standardText.toUTF8) ∧
      (run host words).files ≠ host.files := by
  intro host words
  have hrun : run host words = performed host .english false (fun _ => success)
      (InitCommand.execute ⟨[], ⟨[], [], none⟩⟩ .english none false) := rfl
  have hfile : (run host words).files.lookup ["TestDriver.toml"] =
      some (.file ConfigFile.standardText.toUTF8) := by
    rw [hrun]
    unfold performed InitCommand.execute
    rw [Option.getD_none, ProjectDir.resolve_point]
    rfl
  refine ⟨⟨none, false, none, none, none, true, some false⟩, rfl, rfl, rfl, hfile, fun hsame => ?_⟩
  rw [hsame] at hfile
  cases hfile

end Program

end SuiteDriver

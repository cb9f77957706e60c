import SuiteDriver.Proofs.Expansion
import SuiteDriver.Proofs.RealLocations

/-!
# Project directories come to rest

A project directory is resolved once and for all: what it is resolved to is the path of a real
directory, and the point seen from there is that directory again, whatever the environment. Its text
is taken literally: what a variable or the base contributes is not expanded, nothing is read of the
environment but what the text names, and a base counts only for a text that is expanded to a
relative path.

* `FileSystem.IsSettled`: the path of a real directory, which is resolved to itself;
* `ProjectDir.isSettled_of_resolve`: what a project directory is resolved to;
* `ProjectDir.resolve_base_irrelevant`, `ProjectDir.resolve_env_congr`: what has no influence;
* `ProjectDir.resolve_settles_literally`: all of it together.
-/

namespace SuiteDriver

/-- **A settled path**: absolute, through no link, of a directory that exists, and itself what it is
    resolved to. -/
structure FileSystem.IsSettled (fs : FileSystem) (root : String) : Prop where
  absolute : Path.isAbsolute root = true
  real : ∃ loc, root = pathOf loc ∧ fs.IsReal loc
  isDirectory : fs.isDirectory root = true
  resolved : fs.resolve root = .ok root

namespace ProjectDir

variable {env env' : Environment} {fs : FileSystem} {language : Language}
  {raw base base' root : String}

/-- **What a project directory is resolved to is settled**, and the point seen from it is it
    again. -/
theorem isSettled_of_resolve (hhere : fs.IsReal fs.here)
    (h : resolve env fs language raw base = .ok root) :
    fs.IsSettled root ∧ fs.resolve (Path.join root ".") = .ok root := by
  obtain ⟨expanded, -, hresolve, hdir⟩ := resolve_eq_ok_iff.mp h
  obtain ⟨loc, rfl, hstraight⟩ := FileSystem.exists_isStraight_of_resolve hhere hresolve
  obtain ⟨hreal, hshort⟩ := hstraight.isReal_of_isDirectory hdir
  exact ⟨⟨FileSystem.isAbsolute_pathOf loc, ⟨loc, rfl, hreal⟩, hdir, hreal.resolve_pathOf hshort⟩,
    hreal.resolve_point hshort⟩

/-- An absolute path is not seen from a base, also where it is refused. -/
theorem resolve_base_irrelevant {expanded : String}
    (hfull : Expand.full env fs.accountHome raw = .ok expanded)
    (habsolute : Path.isAbsolute expanded = true) :
    resolve env fs language raw base = resolve env fs language raw base' := by
  have hjoin (b : String) : Path.join b expanded = expanded := if_pos habsolute
  unfold resolve
  rw [hfull]
  dsimp only
  rw [hjoin base, hjoin base']

/-- Environments that are the same to the text lead to the same, also where it is refused. -/
theorem resolve_env_congr (h : Expand.SameTo raw fs.accountHome env env') :
    resolve env fs language raw base = resolve env' fs language raw base := by
  unfold resolve
  rw [Expand.full_congr h]

/-- **A project directory comes to rest where its text literally leads.**

    It is resolved to a settled path, at which the point leads nowhere else in any environment. The
    way there is the base, as it is, and after it the pieces of the text with each variable's value,
    as it is. The base is left out if the pieces make an absolute path. All that counts of the
    environment are the variables that the text names and, for a tilde at its start, the home
    directory. -/
theorem resolve_settles_literally (env : Environment) (fs : FileSystem) (language : Language)
    (raw base : String) (hhere : fs.IsReal fs.here) :
    (∀ root, resolve env fs language raw base = .ok root →
      fs.IsSettled root ∧
      (∀ env' language', resolve env' fs language' "." root = .ok root) ∧
      ∃ expanded, Expand.Gives env fs.accountHome raw expanded ∧
        fs.resolve (Path.join base expanded) = .ok root) ∧
    (∀ expanded, Expand.Gives env fs.accountHome raw expanded → Path.isAbsolute expanded = true →
      ∀ base', resolve env fs language raw base' = resolve env fs language raw base) ∧
    (∀ env', Expand.SameTo raw fs.accountHome env env' →
      resolve env' fs language raw base = resolve env fs language raw base) ∧
    ∀ name ∈ Expand.lookups raw, Expand.Named raw name := by
  refine ⟨fun root hroot => ?_, fun expanded hgives habsolute base' => ?_, fun env' hsame => ?_,
    fun name => Expand.named_of_mem_lookups⟩
  · obtain ⟨hsettled, hpoint⟩ := isSettled_of_resolve hhere hroot
    obtain ⟨expanded, hfull, hresolve, -⟩ := resolve_eq_ok_iff.mp hroot
    refine ⟨hsettled, fun env' language' => ?_, expanded, Expand.full_eq_ok_iff.mp hfull, hresolve⟩
    exact resolve_eq_ok_iff.mpr
      ⟨".", Expand.full_of_plain env' _ (by simp) (by simp), hpoint, hsettled.isDirectory⟩
  · exact resolve_base_irrelevant (Expand.full_eq_ok_iff.mpr hgives) habsolute
  · exact (resolve_env_congr hsame).symm

/-- A variable whose value looks like another variable leads to a directory of just that name, here
    seen from a link, and the value of the other plays no part. -/
theorem resolve_settles_literally_past_dollar :
    let env : Environment := [("X", "$H"), ("H", "/")]
    let fs : FileSystem :=
      ⟨[(["w"], .directory), (["w", "$H"], .directory), (["l"], .link "w")], ["w"], none⟩
    fs.IsReal fs.here ∧ resolve env fs .english "$X" "/l" = .ok "/w/$H" ∧
      fs.IsSettled "/w/$H" ∧ resolve env fs .english "." "/w/$H" = .ok "/w/$H" := by
  intro env fs
  have hhere : fs.IsReal fs.here := (FileSystem.IsReal.root fs).append
    ⟨by decide, by decide, by decide, by decide⟩ rfl
  have hpieces : Expand.pieces "$X".toList = [.variable ['X'] none] := by
    decide +kernel
  have hfull : Expand.full env fs.accountHome "$X" = .ok "$H" := by
    unfold Expand.full
    rw [hpieces]
    rfl
  have hroot : resolve env fs .english "$X" "/l" = .ok "/w/$H" :=
    resolve_eq_ok_iff.mpr ⟨"$H", hfull, rfl, rfl⟩
  obtain ⟨hsettled, hpoint, -⟩ :=
    (resolve_settles_literally env fs .english "$X" "/l" hhere).1 _ hroot
  exact ⟨hhere, hroot, hsettled, hpoint env .english⟩

end ProjectDir

end SuiteDriver

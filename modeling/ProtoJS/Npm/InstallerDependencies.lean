import ProtoJS.Npm.InstallerRuns

/-! # Dependencies of dependencies

`install` installs what a `package.json` lists. The dependencies that the registry gives for an
installed version are never read, so they are there only where they are listed as well or had been
installed before.
-/

namespace ProtoJS.Npm

open Strings Effects

namespace PackageInstaller

open NPMRegistry

variable {σ : Type} {w : World σ} {options : InstallOptions} {packages : List (Text × Text)}
  {o : Outcomes}

/-- Every range is resolved, and every download and extraction succeeds. -/
structure Succeeds (w : World σ) (options : InstallOptions) (packages : List (Text × Text))
    (o : Outcomes) : Prop extends Fixed w options packages o where
  installs : ∀ pair ∈ packages, o.Installs pair.1

/-- The dependencies of a version in the metadata of the registry. -/
def dependenciesOf (w : World σ) (registry packageName version : Text) : List (Text × Text) :=
  (((w.fetchPackage packageName registry).versions.lookup version).map
    PackageVersion.dependencies).getD []

section Log

variable {installDir packageName version : Text}

/-- This version of the package was extracted. -/
def InstalledVersion (installDir : Text) (log : List Extraction) (packageName version : Text) :
    Prop :=
  ⟨tarballPath (tempDir installDir packageName) packageName version,
    packageDir installDir packageName, true⟩ ∈ log

theorem tarballPath_injective (targetDir packageName : Text) :
    Function.Injective (tarballPath targetDir packageName) := by
  intro version version' same
  simpa [tarballPath] using same

/-- A run in which everything succeeds installs what is listed, in the version resolved. -/
theorem installedVersion_iff (installs : ∀ pair ∈ packages, o.Installs pair.1) :
    InstalledVersion installDir
        (packages.flatMap fun pair => o.extractions installDir pair.1) packageName version ↔
      (∃ range, (packageName, range) ∈ packages) ∧ version = o.resolved packageName := by
  rw [InstalledVersion, List.mem_flatMap]
  constructor
  · rintro ⟨⟨name, range⟩, member, extracted⟩
    obtain ⟨present, downloads, _⟩ := installs _ member
    rw [Outcomes.extractions, if_pos ⟨present, downloads⟩, List.mem_singleton] at extracted
    injection extracted with tarball dir _
    cases packageDir_injective installDir dir
    exact ⟨⟨range, member⟩, tarballPath_injective _ _ tarball⟩
  · rintro ⟨⟨range, member⟩, rfl⟩
    obtain ⟨present, downloads, extracts⟩ := installs _ member
    refine ⟨(packageName, range), member, ?_⟩
    rw [Outcomes.extractions, if_pos ⟨present, downloads⟩, extracts]
    exact List.mem_singleton.mpr rfl

/-- The version that is installed after a run, where `before` says what was installed then. -/
def InstalledAfter (installDir : Text) (before : Text → Option Text) (log : List Extraction)
    (packageName version : Text) : Prop :=
  InstalledVersion installDir log packageName version ∨
    (∀ v, ¬InstalledVersion installDir log packageName v) ∧ before packageName = some version

/-- Each dependency of what was installed is satisfied by an installed package. -/
def Closed (w : World σ) (options : InstallOptions) (before : Text → Option Text)
    (log : List Extraction) : Prop :=
  ∀ packageName version, InstalledVersion options.installDir log packageName version →
    ∀ dependency ∈ dependenciesOf w options.registry packageName version,
      ∃ installed, InstalledAfter options.installDir before log dependency.1 installed ∧
        Semver.satisfies installed dependency.2 = .ok true

end Log

/-- One level of dependencies is installed, and no more. -/
theorem install_logging {packageJsonPath content : Text}
    (there : Always (w.pathExists packageJsonPath) true)
    (read : Always (w.readFile packageJsonPath) (some content))
    (succeeds : Succeeds w options (dependenciesIn content options.production) o) :
    Returns (install w.loggingExtractions packageJsonPath options) true
      ((dependenciesIn content options.production).flatMap fun pair =>
        o.extractions options.installDir pair.1) := by
  have parsed : Returns (parseDependencies w.loggingExtractions packageJsonPath
      options.production) (dependenciesIn content options.production) [] :=
    (Returns.lift read).silently (Returns.pure (dependenciesIn content options.production))
  have each := installEach_logging succeeds.toFixed
  rw [List.all_eq_true.mpr fun pair member => decide_eq_true (succeeds.installs pair member)] at each
  refine (Returns.lift there).silently ?_
  refine parsed.silently ?_
  generalize dependenciesIn content options.production = dependencies at each ⊢
  by_cases empty : dependencies = []
  · subst empty
    exact Returns.pure true
  · rw [if_neg empty]
    exact each

/-- When `install` returns true, the installation is closed exactly if each dependency of a listed
package is itself listed and resolved to a version that satisfies it, or is not listed and was
installed before in such a version. -/
theorem closed_of_install_iff {packageJsonPath content : Text}
    (there : Always (w.pathExists packageJsonPath) true)
    (read : Always (w.readFile packageJsonPath) (some content))
    (succeeds : Succeeds w options (dependenciesIn content options.production) o)
    (before : Text → Option Text) (s : σ) :
    (∀ s' log, install w.loggingExtractions packageJsonPath options (s, []) = .ok true (s', log) →
        Closed w options before log) ↔
      ∀ pair ∈ dependenciesIn content options.production,
        ∀ dependency ∈ dependenciesOf w options.registry pair.1 (o.resolved pair.1),
          (∃ range, (dependency.1, range) ∈ dependenciesIn content options.production) ∧
              Semver.satisfies (o.resolved dependency.1) dependency.2 = .ok true ∨
            (¬∃ range, (dependency.1, range) ∈ dependenciesIn content options.production) ∧
              ∃ installed, before dependency.1 = some installed ∧
                Semver.satisfies installed dependency.2 = .ok true := by
  obtain ⟨s', ran⟩ := install_logging there read succeeds (s, [])
  rw [List.nil_append] at ran
  generalize dependenciesIn content options.production = listed at ran succeeds ⊢
  have after (packageName version : Text) : InstalledAfter options.installDir before
      (listed.flatMap fun pair => o.extractions options.installDir pair.1) packageName version ↔
      (∃ range, (packageName, range) ∈ listed) ∧ version = o.resolved packageName ∨
        (¬∃ range, (packageName, range) ∈ listed) ∧ before packageName = some version := by
    rw [InstalledAfter, installedVersion_iff succeeds.installs]
    simp only [installedVersion_iff succeeds.installs, not_and, forall_eq_apply_imp_iff]
  have closed : Closed w options before
      (listed.flatMap fun pair => o.extractions options.installDir pair.1) ↔
      ∀ pair ∈ listed, ∀ dependency ∈ dependenciesOf w options.registry pair.1 (o.resolved pair.1),
        ∃ installed, InstalledAfter options.installDir before
            (listed.flatMap fun pair => o.extractions options.installDir pair.1) dependency.1
            installed ∧ Semver.satisfies installed dependency.2 = .ok true := by
    constructor
    · rintro closed ⟨packageName, range⟩ member
      exact closed packageName _
        ((installedVersion_iff succeeds.installs).mpr ⟨⟨range, member⟩, rfl⟩)
    · intro each packageName version installed
      obtain ⟨⟨range, member⟩, rfl⟩ := (installedVersion_iff succeeds.installs).mp installed
      exact each _ member
  constructor
  · intro whole pair member dependency needed
    obtain ⟨installed, there, satisfied⟩ := closed.mp (whole _ _ ran) pair member dependency needed
    rcases (after _ _).mp there with ⟨isListed, rfl⟩ | ⟨notListed, earlier⟩
    · exact .inl ⟨isListed, satisfied⟩
    · exact .inr ⟨notListed, installed, earlier, satisfied⟩
  · intro each s'' log ran'
    rw [ran] at ran'
    cases ran'
    refine closed.mpr fun pair member dependency needed => ?_
    rcases each pair member dependency needed with
      ⟨isListed, satisfied⟩ | ⟨notListed, installed, earlier, satisfied⟩
    · exact ⟨_, (after _ _).mpr (.inl ⟨isListed, rfl⟩), satisfied⟩
    · exact ⟨installed, (after _ _).mpr (.inr ⟨notListed, earlier⟩), satisfied⟩

section Chain

/-- The package `a` needs `b`. -/
def chain (packageName _registry : Text) : PackageMetadata PackageVersion where
  versions := [("1.0.0".toList, {
    distTarball := "http://npm/a.tgz".toList
    dependencies := if packageName = ['a'] then [(['b'], "^1.0.0".toList)] else [] })]
  latest := []
  sorted := List.pairwise_singleton ..

def chainWorld (content : Text) : World Unit :=
  { ready chain with readFile := fun _ => pure (some content) }

def outcomesChain : Outcomes where
  resolved _ := "1.0.0".toList
  downloads _ := true
  extracts _ := true

def listsA : Text := "\x7b\"dependencies\":\x7b\"a\":\"latest\"\x7d\x7d".toList

def listsBoth : Text := "\x7b\"dependencies\":\x7b\"a\":\"latest\",\"b\":\"latest\"\x7d\x7d".toList

theorem resolveVersion_chain (packageName registry : Text) :
    resolveVersion chain packageName "latest".toList registry = .ok "1.0.0".toList := by
  have highest : Semver.findHighest ["1.0.0".toList] "latest".toList = .ok "1.0.0".toList := by
    decide
  simp only [resolveVersion, chain, List.map_cons, List.map_nil, highest, reduceCtorEq, if_false]
  rfl

theorem succeeds_chain {content : Text} {packages : List (Text × Text)}
    (latest : ∀ pair ∈ packages, pair.2 = "latest".toList) :
    Succeeds (chainWorld content) {} packages outcomesChain where
  resolves pair member := by
    rw [latest pair member]
    exact resolveVersion_chain ..
  creates _ _ := ⟨fun _ => ⟨_, rfl⟩, fun _ => ⟨_, rfl⟩⟩
  removes _ _ _ := ⟨_, rfl⟩
  downloads _ _ _ _ := ⟨(), rfl⟩
  extracts _ _ _ _ := ⟨(), rfl⟩
  installs _ _ := ⟨List.cons_ne_nil _ _, rfl, rfl⟩

theorem dependenciesIn_listsA :
    dependenciesIn listsA false = [(['a'], "latest".toList)] := by decide

theorem dependenciesIn_listsBoth : dependenciesIn listsBoth false =
    [(['a'], "latest".toList), (['b'], "latest".toList)] := by decide

theorem mem_dependenciesOf_chain (content registry packageName : Text)
    (dependency : Text × Text) :
    dependency ∈ dependenciesOf (chainWorld content) registry packageName "1.0.0".toList ↔
      packageName = ['a'] ∧ dependency = (['b'], "^1.0.0".toList) := by
  have found : dependenciesOf (chainWorld content) registry packageName "1.0.0".toList =
      if packageName = ['a'] then [(['b'], "^1.0.0".toList)] else [] := rfl
  rw [found]
  split
  · simp [*]
  · simp [*]

theorem satisfies_chain : Semver.satisfies "1.0.0".toList "^1.0.0".toList = .ok true := by
  decide

theorem latest_of_listsA : ∀ pair ∈ dependenciesIn listsA false, pair.2 = "latest".toList := by
  rw [dependenciesIn_listsA]
  simp

theorem latest_of_listsBoth :
    ∀ pair ∈ dependenciesIn listsBoth false, pair.2 = "latest".toList := by
  rw [dependenciesIn_listsBoth]
  simp

theorem closed_of_install_iff_listsBoth : ∃ log,
    install (chainWorld listsBoth).loggingExtractions "package.json".toList {} ((), []) =
      .ok true ((), log) ∧ Closed (chainWorld listsBoth) {} (fun _ => none) log := by
  have succeeds : Succeeds (chainWorld listsBoth) {} (dependenciesIn listsBoth false)
    outcomesChain := succeeds_chain latest_of_listsBoth
  have there : Always ((chainWorld listsBoth).pathExists "package.json".toList) true :=
    fun _ => ⟨_, rfl⟩
  obtain ⟨s', ran⟩ := install_logging there (fun _ => ⟨_, rfl⟩) succeeds ((), [])
  refine ⟨_, ran, (closed_of_install_iff there (fun _ => ⟨_, rfl⟩) succeeds (fun _ => none)
    ()).mpr ?_ _ _ ran⟩
  intro pair member dependency needed
  obtain ⟨_, rfl⟩ := (mem_dependenciesOf_chain _ _ _ _).mp needed
  have isListed : (['b'], "latest".toList) ∈ dependenciesIn listsBoth false := by
    rw [dependenciesIn_listsBoth]
    simp
  exact .inl ⟨⟨_, isListed⟩, satisfies_chain⟩

/-- What a listed package needs is not installed. -/
theorem not_closed_listsA : ∃ log,
    install (chainWorld listsA).loggingExtractions "package.json".toList {} ((), []) =
      .ok true ((), log) ∧ ¬Closed (chainWorld listsA) {} (fun _ => none) log := by
  have succeeds : Succeeds (chainWorld listsA) {} (dependenciesIn listsA false) outcomesChain :=
    succeeds_chain latest_of_listsA
  have there : Always ((chainWorld listsA).pathExists "package.json".toList) true :=
    fun _ => ⟨_, rfl⟩
  obtain ⟨s', ran⟩ := install_logging there (fun _ => ⟨_, rfl⟩) succeeds ((), [])
  refine ⟨_, ran, fun closed => ?_⟩
  rw [List.nil_append] at closed
  have installs : ∀ pair ∈ dependenciesIn listsA false, outcomesChain.Installs pair.1 :=
    succeeds.installs
  have isListed : (['a'], "latest".toList) ∈ dependenciesIn listsA false := by
    rw [dependenciesIn_listsA]
    simp
  obtain ⟨version, after, _⟩ := closed ['a'] "1.0.0".toList
    ((installedVersion_iff installs).mpr ⟨⟨_, isListed⟩, rfl⟩) (['b'], "^1.0.0".toList)
    ((mem_dependenciesOf_chain _ _ _ _).mpr ⟨rfl, rfl⟩)
  rcases after with installed | ⟨_, earlier⟩
  · obtain ⟨⟨range, member⟩, _⟩ := (installedVersion_iff installs).mp installed
    rw [dependenciesIn_listsA] at member
    simp at member
  · cases earlier

end Chain

end PackageInstaller

end ProtoJS.Npm

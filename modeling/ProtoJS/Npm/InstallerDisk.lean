import ProtoJS.Machine.FileTree
import ProtoJS.Npm.HttpDownload
import ProtoJS.Npm.InstallerRuns

/-! # What a failure leaves

The installer on a tree of files. A failed installation removes its directory `.tmp` but not the
other directories that it made, and not what `tar` extracted; an update removes the old version
before anything else, and nothing brings it back.
-/

namespace ProtoJS.Npm

open Strings FileTree

/-- What there is beside the tree of files. -/
structure Host where
  fetchPackage : Text → Text → PackageMetadata PackageVersion
  net : Network
  /-- There is a callback for the progress. -/
  progress : Bool
  workingDirectory : Location
  /-- A file at this path can be opened for writing. -/
  opens : Tree → Text → Bool
  /-- The exit status of `tar`, and what it leaves. -/
  tar : Text → Text → Tree → ℤ × Tree

def Host.world (h : Host) : World Tree where
  fetchPackage := h.fetchPackage
  pathExists path tree := .ok (decide (Found tree h.workingDirectory path)) tree
  createDirectories path := makeDirectories .filesystem (passed h.workingDirectory path)
  removeAll path tree := .ok .unit (remove h.workingDirectory path tree)
  httpDownload url targetPath tree :=
    let download := NPMRegistry.httpDownload h.net url (h.opens tree targetPath) h.progress
    .ok download.returned (match download.file with
      | none => tree
      | some content => write (locate h.workingDirectory targetPath) (.file content) tree)
  system tarballPath targetDir tree :=
    .ok (h.tar tarballPath targetDir tree).1 (h.tar tarballPath targetDir tree).2
  readFile path tree :=
    if Found tree h.workingDirectory path then
      match tree (locate h.workingDirectory path) with
      | some (.file content) => .ok (some content) tree
      | _ => .ok none tree
    else .ok none tree

namespace NPMRegistry

section Download

variable {h : Host} {packageName version targetDir registry url : Text} {tree : Tree}

theorem downloadPackage_of_clear
    (tarball : tarballOf (h.fetchPackage packageName registry) version = some url)
    (clear : Clear (passed h.workingDirectory targetDir) tree) :
    downloadPackage h.world packageName version targetDir registry tree =
      h.world.httpDownload url (tarballPath targetDir packageName version)
        (withDirectories (passed h.workingDirectory targetDir) tree) := by
  have made : h.world.createDirectories targetDir tree = .ok .unit
      (withDirectories (passed h.workingDirectory targetDir) tree) :=
    makeDirectories_of_clear _ clear
  have fetches : h.world.fetchPackage = h.fetchPackage := rfl
  rw [downloadPackage_eq, fetches, tarball]
  simp only [bind, EStateM.bind, made]

theorem downloadPackage_of_not_clear
    (tarball : tarballOf (h.fetchPackage packageName registry) version = some url)
    (blocked : ¬Clear (passed h.workingDirectory targetDir) tree) :
    ∃ after, downloadPackage h.world packageName version targetDir registry tree =
      .error .filesystem after := by
  obtain ⟨after, thrown⟩ := makeDirectories_of_not_clear Failure.filesystem blocked
  have thrown' : h.world.createDirectories targetDir tree = .error .filesystem after := thrown
  have fetches : h.world.fetchPackage = h.fetchPackage := rfl
  rw [downloadPackage_eq, fetches, tarball]
  simp only [bind, EStateM.bind, thrown']
  exact ⟨after, rfl⟩

end Download

end NPMRegistry

namespace PackageInstaller

open NPMRegistry

variable (h : Host) (options : InstallOptions) (pair : Text × Text)

/-- Where the package is. -/
def packageAt : Location := locate h.workingDirectory (packageDir options.installDir pair.1)

def tempAt : Location := locate h.workingDirectory (tempDir options.installDir pair.1)

/-- The locations at which directories are made. -/
def way : List Location := passed h.workingDirectory (tempDir options.installDir pair.1)

/-- Where the action returns false, what belongs to the package is as it was. -/
def Keeps (action : EStateM Failure Tree Bool) (before : Tree) : Prop :=
  ∀ after, action before = .ok false after →
    ∀ location, packageAt h options pair <+: location → after location = before location

/-- The outcome of the download of a version. -/
def outcome (version : Text) (tree : Tree) : Download :=
  match tarballOf (h.fetchPackage pair.1 options.registry) version with
  | none => { returned := false }
  | some url => httpDownload h.net url
    (h.opens tree (tarballPath (tempDir options.installDir pair.1) pair.1 version)) h.progress

/-- The tree with the tarball, if it was opened. -/
def fetched (version : Text) (tree : Tree) : Tree :=
  match (outcome h options pair version tree).file with
  | none => tree
  | some content => write (locate h.workingDirectory
      (tarballPath (tempDir options.installDir pair.1) pair.1 version)) (.file content) tree

/-- The outcome of the extraction. -/
def extracted (version : Text) (tree : Tree) : ℤ × Tree :=
  h.tar (tarballPath (tempDir options.installDir pair.1) pair.1 version)
    (packageDir options.installDir pair.1) (fetched h options pair version tree)

/-- There is a version, and the directories can be made. -/
def Reaches (version : Text) (tree : Tree) : Prop :=
  resolveVersion h.fetchPackage pair.1 pair.2 options.registry = .ok version ∧ version ≠ [] ∧
    Clear (way h options pair) tree

/-- With the directories, before the download. -/
def prepared (tree : Tree) : Tree := withDirectories (way h options pair) tree

def DownloadFails (version : Text) (tree : Tree) : Prop :=
  Reaches h options pair version tree ∧
    (outcome h options pair version (prepared h options pair tree)).returned = false

def ExtractionFails (version : Text) (tree : Tree) : Prop :=
  Reaches h options pair version tree ∧
    (outcome h options pair version (prepared h options pair tree)).returned = true ∧
    (extracted h options pair version (prepared h options pair tree)).1 ≠ 0

/-- After the package was uninstalled. -/
def uninstalled (tree : Tree) : Tree :=
  remove h.workingDirectory (packageDir options.installDir pair.1) tree

section Way

variable {h options pair} {tree : Tree}

theorem passed_tempDir : way h options pair =
    passed h.workingDirectory (packageDir options.installDir pair.1) ++
      [packageAt h options pair ++ [".tmp".toList]] := by
  have present : packageDir options.installDir pair.1 ≠ [] := by simp [packageDir]
  exact passed_join present (by decide) fun _ => rfl

theorem tempAt_eq : tempAt h options pair = packageAt h options pair ++ [".tmp".toList] := by
  have present : packageDir options.installDir pair.1 ≠ [] := by simp [packageDir]
  exact locate_join present (by decide) fun _ => rfl

theorem packageAt_mem_way : packageAt h options pair ∈ way h options pair := by
  rw [passed_tempDir]
  exact List.mem_append_left _ (locate_mem_passed ..)

theorem packageAt_prefix_tempAt : packageAt h options pair <+: tempAt h options pair := by
  rw [tempAt_eq]
  exact List.prefix_append ..

theorem not_tempAt_prefix_packageAt : ¬tempAt h options pair <+: packageAt h options pair := by
  intro shorter
  have lengths := shorter.length_le
  rw [tempAt_eq, List.length_append, List.length_singleton] at lengths
  omega

/-- Once the directories are made, `.tmp` is found. -/
theorem remove_prepared (clear : Clear (way h options pair) tree) :
    remove h.workingDirectory (tempDir options.installDir pair.1) (prepared h options pair tree) =
      erase (tempAt h options pair) (prepared h options pair tree) := by
  refine if_pos ⟨fun location passes => ?_, ?_⟩
  · exact withDirectories_of_mem clear (List.mem_of_mem_dropLast passes)
  · have there := withDirectories_of_mem clear (locate_mem_passed ..)
    rw [prepared, there]
    exact Option.some_ne_none _

end Way

section Stages

variable {h options pair} {version : Text} {tree : Tree}

theorem downloadPackage_world (clear : Clear (way h options pair) tree) :
    downloadPackage h.world pair.1 version (tempDir options.installDir pair.1) options.registry
        (prepared h options pair tree) =
      .ok (outcome h options pair version (prepared h options pair tree)).returned
        (fetched h options pair version (prepared h options pair tree)) := by
  have again : withDirectories (way h options pair) (prepared h options pair tree) =
      prepared h options pair tree := withDirectories_withDirectories fun _ member => member
  cases tarball : tarballOf (h.fetchPackage pair.1 options.registry) version with
  | none =>
    have fetches : h.world.fetchPackage = h.fetchPackage := rfl
    rw [downloadPackage_eq, fetches]
    simp only [fetched, outcome, tarball]
    rfl
  | some url =>
    have clear' : Clear (way h options pair) (prepared h options pair tree) :=
      (clear_withDirectories _ _).mpr clear
    rw [downloadPackage_of_clear tarball clear', ← way, again]
    simp only [fetched, outcome, tarball]
    rfl

/-- What is done once the directories are made. -/
theorem installPackage_of_reaches (reaches : Reaches h options pair version tree) :
    installPackage h.world pair.1 pair.2 options tree =
      finishPackage h.world options.installDir pair.1 version
        (outcome h options pair version (prepared h options pair tree)).returned
        (fetched h options pair version (prepared h options pair tree)) := by
  obtain ⟨resolved, present, clear⟩ := reaches
  have clearPackage : Clear (passed h.workingDirectory (packageDir options.installDir pair.1))
      tree := by
    intro location member
    exact clear location (passed_tempDir ▸ List.mem_append_left _ member)
  have made : h.world.createDirectories (packageDir options.installDir pair.1) tree = .ok .unit
      (withDirectories (passed h.workingDirectory (packageDir options.installDir pair.1)) tree) :=
    makeDirectories_of_clear _ clearPackage
  have madeTemp : h.world.createDirectories (tempDir options.installDir pair.1)
      (withDirectories (passed h.workingDirectory (packageDir options.installDir pair.1)) tree) =
      .ok .unit (prepared h options pair tree) := by
    refine (makeDirectories_of_clear _ ((clear_withDirectories _ _).mpr clear)).trans ?_
    refine congrArg _ (withDirectories_withDirectories fun location member => ?_)
    exact passed_tempDir ▸ List.mem_append_left _ member
  rw [installPackage, resolve_eq (w := h.world) resolved, pure_bind, if_neg present]
  simp only [bind, EStateM.bind, made, madeTemp, downloadPackage_world clear]

theorem installPackage_of_unresolved
    (resolved : resolveVersion h.fetchPackage pair.1 pair.2 options.registry = .ok []) :
    installPackage h.world pair.1 pair.2 options tree = .ok false tree := by
  rw [installPackage, resolve_eq (w := h.world) resolved, pure_bind, if_pos rfl]
  rfl

/-- A failed download wrote nothing. -/
theorem installPackage_of_downloadFails (fails : DownloadFails h options pair version tree) :
    installPackage h.world pair.1 pair.2 options tree =
      .ok false (erase (tempAt h options pair) (prepared h options pair tree)) := by
  obtain ⟨reaches, failed⟩ := fails
  have untouched : fetched h options pair version (prepared h options pair tree) =
      prepared h options pair tree := by
    have unopened : (outcome h options pair version (prepared h options pair tree)).file =
        none := by
      rw [outcome] at failed ⊢
      cases tarball : tarballOf (h.fetchPackage pair.1 options.registry) version with
      | none => rfl
      | some url =>
        rw [tarball] at failed
        exact httpDownload_file_of_failed failed
    rw [fetched, unopened]
  rw [installPackage_of_reaches reaches, failed, untouched, ← remove_prepared reaches.2.2]
  rfl

theorem installPackage_of_downloaded (reaches : Reaches h options pair version tree)
    (downloaded :
      (outcome h options pair version (prepared h options pair tree)).returned = true) :
    installPackage h.world pair.1 pair.2 options tree =
      .ok (decide ((extracted h options pair version (prepared h options pair tree)).1 = 0))
        (remove h.workingDirectory (tempDir options.installDir pair.1)
          (extracted h options pair version (prepared h options pair tree)).2) := by
  rw [installPackage_of_reaches reaches, downloaded]
  rfl

theorem installPackage_of_not_clear
    (resolved : resolveVersion h.fetchPackage pair.1 pair.2 options.registry = .ok version)
    (present : version ≠ []) (blocked : ¬Clear (way h options pair) tree) :
    ∃ after, installPackage h.world pair.1 pair.2 options tree = .error .filesystem after := by
  rw [installPackage, resolve_eq (w := h.world) resolved, pure_bind, if_neg present]
  have creates : ∀ path, h.world.createDirectories path =
      makeDirectories .filesystem (passed h.workingDirectory path) := fun _ => rfl
  simp only [bind, EStateM.bind, creates]
  by_cases clear : Clear (passed h.workingDirectory (packageDir options.installDir pair.1)) tree
  · rw [← clear_withDirectories _
      (passed h.workingDirectory (packageDir options.installDir pair.1))] at blocked
    obtain ⟨after, thrown⟩ := makeDirectories_of_not_clear Failure.filesystem blocked
    rw [way] at thrown
    rw [makeDirectories_of_clear _ clear]
    exact ⟨after, by simp only [thrown]⟩
  · obtain ⟨after, thrown⟩ := makeDirectories_of_not_clear Failure.filesystem clear
    exact ⟨after, by simp only [thrown]⟩

/-- An installation that returns false failed in one of three ways. -/
theorem installPackage_false {after : Tree}
    (returned : installPackage h.world pair.1 pair.2 options tree = .ok false after) :
    (resolveVersion h.fetchPackage pair.1 pair.2 options.registry = .ok [] ∧ after = tree) ∨
      ∃ version, Reaches h options pair version tree := by
  cases resolved : resolveVersion h.fetchPackage pair.1 pair.2 options.registry with
  | error e =>
    rw [installPackage, resolve_throws (w := h.world) (by rw [Host.world, resolved]; rfl)]
      at returned
    cases returned
  | ok version =>
    by_cases empty : version = []
    · subst empty
      rw [installPackage_of_unresolved resolved] at returned
      cases returned
      exact .inl ⟨rfl, rfl⟩
    · by_cases clear : Clear (way h options pair) tree
      · exact .inr ⟨version, resolved, empty, clear⟩
      · obtain ⟨left, thrown⟩ := installPackage_of_not_clear resolved empty clear
        rw [thrown] at returned
        cases returned

end Stages

section Keeps

/-- There was no `.tmp`, and the directories that are made in the package were there. -/
def Prepared (tree : Tree) : Prop :=
  (∀ location, tempAt h options pair <+: location → tree location = none) ∧
    ∀ location ∈ way h options pair, packageAt h options pair <+: location →
      ¬tempAt h options pair <+: location → tree location ≠ none

/-- There is nothing in the package but the directories that are made, without `.tmp`. -/
def OnlyPrepared (tree : Tree) : Prop :=
  ∀ location, packageAt h options pair <+: location →
    (location ∈ way h options pair ∧ ¬tempAt h options pair <+: location →
      tree location = some .directory) ∧
    (¬(location ∈ way h options pair ∧ ¬tempAt h options pair <+: location) →
      tree location = none)

/-- What is left of the extraction without `.tmp` is what there was in the package before. -/
def Restores (version : Text) (start before : Tree) : Prop :=
  ∀ location, packageAt h options pair <+: location →
    remove h.workingDirectory (tempDir options.installDir pair.1)
      (extracted h options pair version (prepared h options pair start)).2 location =
        before location

variable {h options pair} {tree before : Tree}

/-- What an installation that starts from one tree keeps of another one. -/
theorem installPackage_keeps_iff :
    (∀ after, installPackage h.world pair.1 pair.2 options tree = .ok false after →
        ∀ location, packageAt h options pair <+: location → after location = before location) ↔
      (resolveVersion h.fetchPackage pair.1 pair.2 options.registry = .ok [] →
        ∀ location, packageAt h options pair <+: location → tree location = before location) ∧
      ∀ version,
        (DownloadFails h options pair version tree →
          ∀ location, packageAt h options pair <+: location →
            erase (tempAt h options pair) (prepared h options pair tree) location =
              before location) ∧
        (ExtractionFails h options pair version tree →
          Restores h options pair version tree before) := by
  constructor
  · intro keeps
    refine ⟨fun resolved => keeps tree (installPackage_of_unresolved resolved), fun version => ?_⟩
    refine ⟨fun fails => keeps _ (installPackage_of_downloadFails fails), ?_⟩
    rintro ⟨reaches, downloaded, failed⟩
    refine keeps _ ((installPackage_of_downloaded reaches downloaded).trans ?_)
    rw [decide_eq_false failed]
  · rintro ⟨unresolved, stages⟩ after returned
    rcases installPackage_false returned with ⟨resolved, rfl⟩ | ⟨version, reaches⟩
    · exact unresolved resolved
    · obtain ⟨download, extraction⟩ := stages version
      cases downloaded :
        (outcome h options pair version (prepared h options pair tree)).returned with
      | false =>
        rw [installPackage_of_downloadFails ⟨reaches, downloaded⟩] at returned
        cases returned
        exact download ⟨reaches, downloaded⟩
      | true =>
        rw [installPackage_of_downloaded reaches downloaded] at returned
        injection returned with status left
        rw [← left]
        exact extraction ⟨reaches, downloaded, of_decide_eq_false status⟩

/-- The directories that are made are there and nothing else is added, exactly if they were there
and there was no `.tmp`. -/
theorem erase_prepared_eq_iff (clear : Clear (way h options pair) tree) :
    (∀ location, packageAt h options pair <+: location →
        erase (tempAt h options pair) (prepared h options pair tree) location = tree location) ↔
      Prepared h options pair tree := by
  constructor
  · intro same
    constructor
    · intro location below
      rw [← same location (packageAt_prefix_tempAt.trans below), erase, if_pos below]
    · intro location member inside outside
      rw [← same location inside, erase, if_neg outside, prepared,
        withDirectories_of_mem clear member]
      exact Option.some_ne_none _
  · rintro ⟨nothing, there⟩ location inside
    rw [erase]
    split
    · rename_i below
      exact (nothing location below).symm
    · rename_i outside
      rw [prepared, withDirectories, if_neg]
      rintro ⟨member, absent⟩
      exact there location member inside outside absent

/-- After the package was removed, the directories that are made are all there is. -/
theorem erase_prepared_erase_eq_iff :
    (∀ location, packageAt h options pair <+: location →
        erase (tempAt h options pair)
          (prepared h options pair (erase (packageAt h options pair) tree)) location =
            tree location) ↔ OnlyPrepared h options pair tree := by
  refine forall₂_congr fun location inside => ?_
  have erased : erase (packageAt h options pair) tree location = none := if_pos inside
  rw [eq_comm, prepared]
  by_cases made : location ∈ way h options pair ∧ ¬tempAt h options pair <+: location
  · rw [erase, if_neg made.2, withDirectories, if_pos ⟨made.1, erased⟩]
    simp [made]
  · have empty : erase (tempAt h options pair) (withDirectories (way h options pair)
        (erase (packageAt h options pair) tree)) location = none := by
      rw [erase]
      split
      · rfl
      · rename_i outside
        rw [withDirectories, if_neg fun both => made ⟨both.1, outside⟩, erased]
    rw [empty]
    simp [made]

theorem keeps_installPackage_iff :
    Keeps h options pair (installPackage h.world pair.1 pair.2 options) tree ↔
      ∀ version, (DownloadFails h options pair version tree → Prepared h options pair tree) ∧
        (ExtractionFails h options pair version tree →
          Restores h options pair version tree tree) := by
  rw [Keeps, installPackage_keeps_iff]
  refine (and_iff_right fun _ _ _ => rfl).trans (forall_congr' fun version => ?_)
  refine and_congr_left fun _ => forall_congr' fun fails => ?_
  exact erase_prepared_eq_iff fails.1.2.2

theorem uninstallPackage_world (packageName installDir : Text) (tree : Tree) :
    uninstallPackage h.world packageName installDir tree =
      .ok (decide (Found tree h.workingDirectory (packageDir installDir packageName)))
        (remove h.workingDirectory (packageDir installDir packageName) tree) := by
  have there : h.world.pathExists (packageDir installDir packageName) tree =
      .ok (decide (Found tree h.workingDirectory (packageDir installDir packageName))) tree := rfl
  have removed : h.world.removeAll (packageDir installDir packageName) tree =
      .ok .unit (remove h.workingDirectory (packageDir installDir packageName) tree) := rfl
  rw [uninstallPackage]
  simp only [bind, EStateM.bind, there]
  by_cases found : Found tree h.workingDirectory (packageDir installDir packageName)
  · simp only [found, decide_true, if_true, EStateM.bind, removed]
    rfl
  · simp only [found, decide_false, Bool.false_eq_true, if_false, remove]
    rfl

theorem updatePackage_world : updatePackage h.world pair.1 pair.2 options tree =
    installPackage h.world pair.1 pair.2 options (uninstalled h options pair tree) := by
  rw [updatePackage]
  simp only [bind, EStateM.bind, uninstallPackage_world]
  rfl

theorem keeps_updatePackage_iff :
    Keeps h options pair (updatePackage h.world pair.1 pair.2 options) tree ↔
      (resolveVersion h.fetchPackage pair.1 pair.2 options.registry = .ok [] →
        ¬Found tree h.workingDirectory (packageDir options.installDir pair.1)) ∧
      ∀ version,
        (DownloadFails h options pair version (uninstalled h options pair tree) →
          if Found tree h.workingDirectory (packageDir options.installDir pair.1) then
            OnlyPrepared h options pair tree
          else Prepared h options pair tree) ∧
        (ExtractionFails h options pair version (uninstalled h options pair tree) →
          Restores h options pair version (uninstalled h options pair tree) tree) := by
  simp only [Keeps, updatePackage_world]
  rw [installPackage_keeps_iff]
  by_cases found : Found tree h.workingDirectory (packageDir options.installDir pair.1)
  · have removed : uninstalled h options pair tree = erase (packageAt h options pair) tree :=
      if_pos found
    rw [removed]
    refine and_congr (forall_congr' fun _ => ?_) (forall_congr' fun version => ?_)
    · refine iff_of_false (fun same => ?_) (not_not_intro found)
      refine found.2 ((same _ List.prefix_rfl).symm.trans ?_)
      exact if_pos List.prefix_rfl
    · rw [if_pos found, erase_prepared_erase_eq_iff]
  · have kept : uninstalled h options pair tree = tree := if_neg found
    rw [kept]
    refine and_congr (forall_congr' fun _ => ?_) (forall_congr' fun version => ?_)
    · exact iff_of_true (fun _ _ => rfl) found
    · rw [if_neg found]
      refine and_congr_left fun _ => forall_congr' fun fails => ?_
      exact erase_prepared_eq_iff fails.1.2.2

/-- What a call that returns false leaves of the package. An installation leaves it as it was if,
where the download fails, the directories were there and nothing was at `.tmp`, and where the
extraction fails, this one leaves what was there. For an update there must have been nothing in the
package but the directories, if the download fails, and no package at all, if there is no
version. -/
theorem keeps_iff (h : Host) (options : InstallOptions) (pair : Text × Text) (tree : Tree) :
    (Keeps h options pair (installPackage h.world pair.1 pair.2 options) tree ↔
      ∀ version, (DownloadFails h options pair version tree → Prepared h options pair tree) ∧
        (ExtractionFails h options pair version tree →
          Restores h options pair version tree tree)) ∧
    (Keeps h options pair (updatePackage h.world pair.1 pair.2 options) tree ↔
      (resolveVersion h.fetchPackage pair.1 pair.2 options.registry = .ok [] →
        ¬Found tree h.workingDirectory (packageDir options.installDir pair.1)) ∧
      ∀ version,
        (DownloadFails h options pair version (uninstalled h options pair tree) →
          if Found tree h.workingDirectory (packageDir options.installDir pair.1) then
            OnlyPrepared h options pair tree
          else Prepared h options pair tree) ∧
        (ExtractionFails h options pair version (uninstalled h options pair tree) →
          Restores h options pair version (uninstalled h options pair tree) tree)) :=
  ⟨keeps_installPackage_iff, keeps_updatePackage_iff⟩

/-- The registry is known, but there is no connection. -/
def offline : Host where
  fetchPackage := onlyA
  net := ⟨fun _ _ _ => none, fun _ _ _ => none⟩
  progress := false
  workingDirectory := []
  opens _ _ := true
  tar _ _ tree := (0, tree)

def installedA : Tree := fun location =>
  if location = [] ∨ location = ["node_modules".toList] ∨
      location = ["node_modules".toList, ['a']] then
    some .directory
  else if location = ["node_modules".toList, ['a'], "index.js".toList] then some (.file [])
  else none

def onlyRoot : Tree := fun location => if location = [] then some .directory else none

theorem clear_onlyRoot (locations : List Location) : Clear locations onlyRoot := by
  intro location _
  by_cases root : location = []
  · exact .inr (if_pos root)
  · exact .inl (if_neg root)

/-- An update to a range without a version removes the package, and an installation that cannot be
downloaded leaves a directory. -/
theorem not_keeps_offline :
    ¬Keeps offline {} (['a'], "^9.0.0".toList)
      (updatePackage offline.world ['a'] "^9.0.0".toList {}) installedA ∧
    ¬Keeps offline {} (['a'], "latest".toList)
      (installPackage offline.world ['a'] "latest".toList {}) onlyRoot := by
  constructor
  · intro keeps
    exact (keeps_updatePackage_iff.mp keeps).1 (by decide) (by decide +kernel)
  · intro keeps
    have fails : DownloadFails offline {} (['a'], "latest".toList) "1.0.0".toList onlyRoot := by
      refine ⟨⟨by decide, by decide, clear_onlyRoot _⟩, ?_⟩
      decide
    have there := ((keeps_installPackage_iff.mp keeps _).1 fails).2 _ packageAt_mem_way
      List.prefix_rfl not_tempAt_prefix_packageAt
    exact there (by decide)

end Keeps

end PackageInstaller

end ProtoJS.Npm

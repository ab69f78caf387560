import ProtoJS.Npm.DownloadIntegrity
import ProtoJS.Npm.InstallerDisk
import ProtoJS.Npm.InstallerTransfers

/-! # Where a tarball is written

The name of a package is put into the name of its tarball as it is. `downloadPackage` makes the
target directory, but the name of a scoped package goes through one more directory, which nobody
makes.
-/

namespace ProtoJS.Npm

open Strings FileTree Effects

/-- An unscoped name, or `@scope/name`. -/
structure PackageName where
  scope : Option Text
  base : Text
  present : base ≠ []
  plain : '/' ∉ base
  plainScope : ∀ s ∈ scope, '/' ∉ s

namespace PackageName

/-- The directories in the name. -/
def directories (name : PackageName) : List Text := (name.scope.map ('@' :: ·)).toList

def text (name : PackageName) : Text :=
  match name.scope with
  | none => name.base
  | some scope => '@' :: scope ++ '/' :: name.base

end PackageName

/-- What `std::ofstream` does: it makes no directory. -/
def Host.Opening (h : Host) : Prop :=
  ∀ tree path, h.opens tree path = true ↔ Writable tree h.workingDirectory path

namespace NPMRegistry

/-- The download returns true, and the tarball has what the transfer brought. -/
def Downloads (h : Host) (packageName version targetDir registry url : Text) (tree : Tree) : Prop :=
  ∃ after content,
    downloadPackage h.world packageName version targetDir registry tree = .ok true after ∧
    (httpDownload h.net url true h.progress).file = some content ∧
    after (locate h.workingDirectory (tarballPath targetDir packageName version)) =
      some (.file content)

section Paths

variable {h : Host} {packageName version targetDir registry url : Text} {tree : Tree}

/-- A transfer that succeeds is written exactly if its file can be opened. -/
theorem downloads_iff_writable (opening : h.Opening)
    (tarball : tarballOf (h.fetchPackage packageName registry) version = some url)
    (transfers : (httpDownload h.net url true h.progress).returned = true) :
    Downloads h packageName version targetDir registry url tree ↔
      Clear (passed h.workingDirectory targetDir) tree ∧
        Writable (withDirectories (passed h.workingDirectory targetDir) tree) h.workingDirectory
          (tarballPath targetDir packageName version) := by
  constructor
  · rintro ⟨after, content, returned, -, -⟩
    have clear : Clear (passed h.workingDirectory targetDir) tree := by
      by_contra blocked
      obtain ⟨left, thrown⟩ := downloadPackage_of_not_clear tarball blocked
      rw [thrown] at returned
      cases returned
    refine ⟨clear, (opening _ _).1 ?_⟩
    by_contra closed
    rw [downloadPackage_of_clear tarball clear] at returned
    simp only [Host.world, eq_false_of_ne_true closed] at returned
    injection returned with downloaded
    rw [httpDownload_unopened] at downloaded
    cases downloaded
  · rintro ⟨clear, writable⟩
    obtain ⟨content, file⟩ := httpDownload_file_of_returned transfers
    rw [Downloads, downloadPackage_of_clear tarball clear]
    simp only [Host.world, (opening _ _).2 writable, transfers, file]
    exact ⟨_, content, rfl, rfl, Function.update_self ..⟩

theorem writable_made_iff (clear : Clear (passed h.workingDirectory targetDir) tree) (path : Text) :
    Writable (withDirectories (passed h.workingDirectory targetDir) tree) h.workingDirectory path ↔
      (∀ location ∈ (passed h.workingDirectory path).dropLast,
        location ∈ passed h.workingDirectory targetDir ∨ tree location = some .directory) ∧
      locate h.workingDirectory path ∉ passed h.workingDirectory targetDir ∧
      tree (locate h.workingDirectory path) ≠ some .directory := by
  simp only [Writable, ne_eq, withDirectories_eq_directory_iff clear, not_or]

/-- Below the target directory, the tarball is in the directories of the name. -/
theorem dropLast_passed_tarballPath (name : PackageName) (here : Location)
    (present : targetDir ≠ []) (plain : '/' ∉ version) :
    (passed here (tarballPath targetDir name.text version)).dropLast =
      passed here targetDir ++
        name.directories.map fun scope => locate here targetDir ++ [scope] := by
  have path : tarballPath targetDir name.text version =
      targetDir ++ '/' :: (name.text ++ ('-' :: version ++ ".tgz".toList)) := by
    simp [tarballPath]
  have file : '/' ∉ name.base ++ ('-' :: version ++ ".tgz".toList) := by
    simp [name.plain, plain]
  rw [path, dropLast_passed_append present]
  refine congrArg _ ?_
  rcases name with ⟨_ | scope, base, named, plainBase, plainScope⟩
  · rw [PackageName.text, List.splitOn_eq_singleton file]
    rfl
  · have first : '/' ∉ '@' :: scope := by
      simp [plainScope scope rfl]
    have goesDown (location : Location) :
        follow location ('@' :: scope) = location ++ ['@' :: scope] := by
      simp [follow]
    have text : '@' :: scope ++ '/' :: base ++ ('-' :: version ++ ".tgz".toList) =
        '@' :: scope ++ '/' :: (base ++ ('-' :: version ++ ".tgz".toList)) :=
      List.append_assoc ..
    rw [PackageName.text, text, List.splitOn_append_cons_self_of_not_mem first,
      List.splitOn_eq_singleton file, passedFrom, goesDown]
    rfl

end Paths

/-- A version in the registry whose transfer succeeds is written to its tarball exactly if no file
is in the way of the target directory, what the name puts between this and the tarball is there,
and the tarball is not itself a directory. Between them is nothing for an unscoped name and one
directory for a scoped one. What the installers extract has been written to its path before. -/
theorem downloads_iff (h : Host) (opening : h.Opening) (name : PackageName)
    (version targetDir registry url : Text) (tree : Tree)
    (tarball : tarballOf (h.fetchPackage name.text registry) version = some url)
    (transfers : (httpDownload h.net url true h.progress).returned = true) :
    (Downloads h name.text version targetDir registry url tree ↔
      Clear (passed h.workingDirectory targetDir) tree ∧
      (∀ location ∈
          (passed h.workingDirectory (tarballPath targetDir name.text version)).dropLast,
        location ∈ passed h.workingDirectory targetDir ∨ tree location = some .directory) ∧
      locate h.workingDirectory (tarballPath targetDir name.text version) ∉
        passed h.workingDirectory targetDir ∧
      tree (locate h.workingDirectory (tarballPath targetDir name.text version)) ≠
        some .directory) ∧
    (targetDir ≠ [] → '/' ∉ version →
      (passed h.workingDirectory (tarballPath targetDir name.text version)).dropLast =
        passed h.workingDirectory targetDir ++
          name.directories.map fun scope => locate h.workingDirectory targetDir ++ [scope]) ∧
    ∀ (options : InstallOptions) (pair : Text × Text) (packages : List (Text × Text)),
      Justified (final
        (PackageInstaller.installPackage h.world.loggingTransfers pair.1 pair.2 options
          (tree, []))).2 ∧
      Justified (final
        (PackageInstaller.installPackages h.world.loggingTransfers packages options
          (tree, []))).2 := by
  refine ⟨?_, dropLast_passed_tarballPath name h.workingDirectory, fun options pair packages =>
    PackageInstaller.justified_installers h.world options pair packages tree⟩
  rw [downloads_iff_writable opening tarball transfers]
  exact and_congr_right fun clear => writable_made_iff clear _

/-- Every package has one version, and every request is answered. -/
def connected : Host where
  fetchPackage _ := PackageInstaller.onlyA ['a']
  net := answering threePieces
  progress := true
  workingDirectory := []
  opens tree path := decide (Writable tree [] path)
  tar _ _ tree := (0, tree)

theorem opening_connected : connected.Opening := fun _ _ => decide_eq_true_iff

def unscopedName : PackageName := ⟨none, ['a'], by decide, by decide, by simp⟩

def scopedName : PackageName := ⟨some ['s'], ['p'], by decide, by decide, by simp⟩

/-- The directory to which the installer downloads. -/
def freshDir (name : PackageName) : Text :=
  PackageInstaller.tempDir "./node_modules".toList name.text

theorem downloads_iff_unscoped : Downloads connected unscopedName.text "1.0.0".toList
    (freshDir unscopedName) [] tarballUrl PackageInstaller.onlyRoot :=
  (downloads_iff connected opening_connected unscopedName "1.0.0".toList (freshDir unscopedName) []
    tarballUrl PackageInstaller.onlyRoot (by decide) (by decide)).1.2
    ⟨PackageInstaller.clear_onlyRoot _, by decide, by decide, by decide⟩

/-- The directory of the scope is not made. -/
theorem not_downloads_scoped :
    tarballOf (connected.fetchPackage scopedName.text []) "1.0.0".toList = some tarballUrl ∧
    (httpDownload connected.net tarballUrl true connected.progress).returned = true ∧
    ¬Downloads connected scopedName.text "1.0.0".toList (freshDir scopedName) [] tarballUrl
      PackageInstaller.onlyRoot := by
  have tarball : tarballOf (connected.fetchPackage scopedName.text []) "1.0.0".toList =
      some tarballUrl := by decide
  have transfers : (httpDownload connected.net tarballUrl true connected.progress).returned =
      true := by decide
  refine ⟨tarball, transfers, ?_⟩
  rw [downloads_iff_writable opening_connected tarball transfers]
  rintro ⟨clear, there, -⟩
  have made := there ["node_modules".toList, "@s".toList, ['p'], ".tmp".toList, "@s".toList]
    (by decide)
  rw [withDirectories_eq_directory_iff clear] at made
  exact absurd made (by decide)

end NPMRegistry

end ProtoJS.Npm

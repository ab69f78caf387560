import ProtoJS.Modules.ModuleResolver
import ProtoJS.Strings.Search

/-! # Package names of bare specifiers

The segments of a bare specifier are the name of a package and a path inside it. A scoped name
takes two segments and any other name one; the resolver takes two for every specifier.
-/

namespace ProtoJS.Modules

namespace ModuleResolver

section Find

open Strings

variable {pattern text : String} {position : ℕ} {front rest : List Char} {c : Char}

/-- A search from a position finds what is first behind it. -/
theorem find_eq_some (inside : position ≤ text.length)
    (found : (text.toList.drop position).dropInfix? pattern.toList = some (front, rest)) :
    find pattern text position = some (position + front.length) := by
  obtain ⟨split, first⟩ := dropInfix?_eq_some.1 found
  have there : text.toList.drop (position + front.length) = pattern.toList ++ rest := by
    rw [← List.drop_drop, split, List.append_assoc, List.drop_left]
  have size : text.length - position = front.length + pattern.length + rest.length := by
    have sizes := congrArg List.length split
    simpa only [List.length_drop, List.length_append, String.length_toList] using sizes
  rw [find, List.find?_range_eq_some]
  refine ⟨?_, ?_, ?_⟩
  · simp only [Bool.and_eq_true, decide_eq_true_eq, List.isPrefixOf_iff_prefix]
    exact ⟨Nat.le_add_right .., rest, there.symm⟩
  · rw [List.mem_range]
    omega
  · intro i earlier
    simp only [Bool.not_eq_true', Bool.and_eq_false_iff, decide_eq_false_iff_not]
    refine or_iff_not_imp_left.2 fun reached => ?_
    rw [not_not] at reached
    obtain ⟨past, rfl⟩ := Nat.exists_eq_add_of_le reached
    rw [← Bool.not_eq_true, List.isPrefixOf_iff_prefix, ← List.drop_drop]
    rintro ⟨others, occurs⟩
    have least := first ((text.toList.drop position).take past) others (by
      rw [List.append_assoc, occurs, List.take_append_drop])
    rw [List.length_take] at least
    omega

theorem find_eq_none (absent : (text.toList.drop position).dropInfix? pattern.toList = none) :
    find pattern text position = none := by
  rw [find, List.find?_eq_none]
  intro i _
  simp only [Bool.and_eq_true, decide_eq_true_eq, not_and, List.isPrefixOf_iff_prefix]
  intro reached occurs
  obtain ⟨past, rfl⟩ := Nat.exists_eq_add_of_le reached
  rw [← List.drop_drop] at occurs
  exact dropInfix?_eq_none.1 absent (occurs.isInfix.trans (List.drop_suffix ..).isInfix)

/-- A search for a character. -/
theorem find_char (single : pattern.toList = [c]) (inside : position ≤ text.length) :
    find pattern text position =
      if c ∈ text.toList.drop position then
        some (position + ((text.toList.drop position).takeWhile (· ≠ c)).length)
      else none := by
  split
  · rename_i member
    obtain ⟨front, rest, split, clean⟩ := List.eq_append_cons_of_mem member
    have found : (text.toList.drop position).dropInfix? pattern.toList = some (front, rest) := by
      rw [single, split]
      simpa using @dropInfix?_append_cons _ _ _ [] front rest c clean
    have others : ∀ d ∈ front, decide (d ≠ c) = true := by
      intro d inFront
      rw [decide_eq_true_eq]
      rintro rfl
      exact clean inFront
    rw [find_eq_some inside found, split, List.takeWhile_append_of_pos others]
    simp
  · rename_i absent
    refine find_eq_none (dropInfix?_eq_none.2 fun occurs => absent ?_)
    rw [single] at occurs
    exact occurs.subset (List.mem_singleton_self c)

end Find

section Segments

variable {text : String} {position : ℕ} {before rest : List Char}

/-- The search for a slash stops at the first one. -/
theorem find_slash_eq_some (split : text.toList = before ++ '/' :: rest)
    (inside : position ≤ before.length) (clean : '/' ∉ before.drop position) :
    find "/" text position = some before.length := by
  have size := congrArg List.length split
  simp only [String.length_toList, List.length_append, List.length_cons] at size
  have others : ∀ d ∈ before.drop position, decide (d ≠ '/') = true := by
    intro d member
    rw [decide_eq_true_eq]
    rintro rfl
    exact clean member
  have single : "/".toList = ['/'] := rfl
  rw [find_char single (by omega), split, List.drop_append_of_le_length inside, if_pos (by simp),
    List.takeWhile_append_of_pos others]
  simp only [ne_eq, not_true_eq_false, decide_false, Bool.false_eq_true, not_false_eq_true,
    List.takeWhile_cons_of_neg, List.append_nil, List.length_drop, Option.some.injEq]
  omega

theorem find_slash_eq_none (clean : '/' ∉ text.toList.drop position) :
    find "/" text position = none := by
  refine find_eq_none (Strings.dropInfix?_eq_none.2 fun occurs => clean ?_)
  exact occurs.subset (List.mem_singleton_self '/')

def segments (specifier : String) : List (List Char) := specifier.toList.splitOn '/'

def joined (segments : List (List Char)) : String := String.ofList (['/'].intercalate segments)

/-- The specifiers without a slash, with one, and with more. -/
theorem segments_cases (specifier : String) :
    ('/' ∉ specifier.toList ∧ segments specifier = [specifier.toList]) ∨
    (∃ first second, specifier.toList = first ++ '/' :: second ∧ '/' ∉ first ∧ '/' ∉ second ∧
      segments specifier = [first, second]) ∨
    ∃ first second rest, specifier.toList = first ++ '/' :: (second ++ '/' :: rest) ∧
      '/' ∉ first ∧ '/' ∉ second ∧
      segments specifier = first :: second :: rest.splitOn '/' := by
  by_cases slash : '/' ∈ specifier.toList
  · obtain ⟨first, after, split, clean⟩ := List.eq_append_cons_of_mem slash
    have here : segments specifier = first :: after.splitOn '/' := by
      rw [segments, split, List.splitOn_append_cons_self_of_not_mem clean]
    by_cases again : '/' ∈ after
    · obtain ⟨second, rest, splitAfter, cleanSecond⟩ := List.eq_append_cons_of_mem again
      refine .inr (.inr ⟨first, second, rest, ?_, clean, cleanSecond, ?_⟩)
      · rw [split, splitAfter]
      · rw [here, splitAfter, List.splitOn_append_cons_self_of_not_mem cleanSecond]
    · refine .inr (.inl ⟨first, after, split, clean, again, ?_⟩)
      rw [here, List.splitOn_eq_singleton again]
  · exact .inl ⟨slash, List.splitOn_eq_singleton slash⟩

/-- The resolver takes every specifier for a scoped one. -/
theorem packageNameOf_eq_joined (specifier : String) :
    packageNameOf specifier = joined ((segments specifier).take 2) ∧
      subpathOf specifier = joined ((segments specifier).drop 2) := by
  rcases segments_cases specifier with ⟨clean, split⟩ | ⟨first, second, whole, clean, cleanSecond,
    split⟩ | ⟨first, second, rest, whole, clean, cleanSecond, split⟩
  · have unfound : find "/" specifier 0 = none := find_slash_eq_none (by simpa using clean)
    simp [packageNameOf, subpathOf, unfound, split, joined]
  · have found := find_slash_eq_some whole (Nat.zero_le _) (by simpa using clean)
    have unfound : find "/" specifier (first.length + 1) = none := by
      refine find_slash_eq_none ?_
      rw [whole, List.drop_length_add_append]
      simpa using cleanSecond
    simp only [packageNameOf, subpathOf, found, unfound, split, joined]
    refine ⟨?_, rfl⟩
    simp [List.intercalate, ← whole]
  · have found := find_slash_eq_some whole (Nat.zero_le _) (by simpa using clean)
    have split' : specifier.toList = (first ++ '/' :: second) ++ '/' :: rest := by simp [whole]
    have next : find "/" specifier (first.length + 1) = some (first ++ '/' :: second).length := by
      refine find_slash_eq_some split' (by simp) ?_
      rw [List.drop_length_add_append]
      simpa using cleanSecond
    simp only [packageNameOf, subpathOf, found, next, split, joined]
    constructor
    · rw [substr, split', List.drop_zero, List.take_left]
      exact congrArg String.ofList (by simp [List.intercalate])
    · rw [substrFrom, split', List.drop_append]
      simp [List.intercalate_splitOn]

end Segments

/-- The number of segments of the package name. -/
def nameSegments (specifier : String) : ℕ :=
  if ((segments specifier).headD []).head? = some '@' then 2 else 1

def declaredName (specifier : String) : String :=
  joined ((segments specifier).take (nameSegments specifier))

def declaredSubpath (specifier : String) : String :=
  joined ((segments specifier).drop (nameSegments specifier))

/-- In every directory of every file system, the package is looked for under the name and in no
other place. -/
def LooksUp (specifier name : String) : Prop :=
  ∀ (fs : FileSystem) (current : String),
    let nodeModules := current ++ "/node_modules"
    let packageDir := nodeModules ++ "/" ++ name
    let result := (resolveInDirectory fs specifier current {}).1
    (result.isPackage = true ↔
      isDirectory fs nodeModules = true ∧ isDirectory fs packageDir = true ∧
        isFile fs (packageDir ++ "/package.json") = true ∧
        (fs.readFile (packageDir ++ "/package.json")).isSome = true) ∧
    (result.isPackage = true → result.packageName = name)

section Lookup

variable {specifier name : String}

/-- The first segment starts as the specifier does. -/
theorem head?_segments (specifier : String) :
    ((segments specifier).headD []).head? = some '@' ↔ specifier.toList.head? = some '@' := by
  rcases segments_cases specifier with ⟨_, split⟩ | ⟨first, second, whole, _, _, split⟩ |
    ⟨first, second, rest, whole, _, _, split⟩
  · rw [split, List.headD_cons]
  · rw [split, whole]
    cases first <;> simp
  · rw [split, whole]
    cases first <;> simp

theorem joined_singleton_ne (first second : List Char) {rest : List (List Char)} :
    joined ((first :: second :: rest).take 1) ≠ joined ((first :: second :: rest).take 2) := by
  intro same
  have sizes := congrArg String.length same
  simp [joined, List.intercalate] at sizes

/-- The exports of a package are never read. -/
theorem tryExports_of_parsed {fs : FileSystem} {packageJson : String} {package : PackageJson}
    (parsed : parsePackageJson fs packageJson = some package) (packageDir specifier : String) :
    tryExports fs packageJson packageDir specifier package = {} := by
  rw [parsePackageJson, Option.map_eq_some_iff] at parsed
  obtain ⟨content, _, rfl⟩ := parsed
  rfl

theorem looksUp_packageNameOf (specifier : String) :
    LooksUp specifier (packageNameOf specifier) := by
  intro fs current
  dsimp only
  unfold resolveInDirectory
  simp only
  split
  · rename_i there
    simp only [Bool.and_eq_true] at there
    split
    · rename_i unread
      rw [parsePackageJson, Option.map_eq_none_iff] at unread
      simp [unread]
    · rename_i package parsed
      rw [tryExports_of_parsed parsed, if_neg (by simp)]
      rw [parsePackageJson, Option.map_eq_some_iff] at parsed
      obtain ⟨content, read, _⟩ := parsed
      split <;> simp [setTypeFromPath, there, read]
  · rename_i absent
    simp only [Bool.and_eq_true] at absent
    simp only [Bool.false_eq_true, false_iff, false_imp_iff, and_true]
    tauto

/-- A file system with one file, where every other path is a directory. -/
def onlyFile (file : String) : FileSystem where
  platform := .unix
  stat path := if path = file then some .regular else some .directory
  canonical := some
  readFile _ := some ""

theorem isDirectory_onlyFile {file path : String} (shorter : path.length < file.length) :
    isDirectory (onlyFile file) path = true := by
  have other : path ≠ file := fun same => by simp [same] at shorter
  simp [isDirectory, onlyFile, other]

/-- A package can be installed under every name. -/
theorem exists_installed (nodeModules name : String) :
    ∃ fs, isDirectory fs nodeModules = true ∧ isDirectory fs (nodeModules ++ "/" ++ name) = true ∧
      isFile fs (nodeModules ++ "/" ++ name ++ "/package.json") = true ∧
      (fs.readFile (nodeModules ++ "/" ++ name ++ "/package.json")).isSome = true := by
  have more : 0 < "/package.json".length := by decide
  refine ⟨onlyFile (nodeModules ++ "/" ++ name ++ "/package.json"), isDirectory_onlyFile ?_,
    isDirectory_onlyFile ?_, ?_, rfl⟩
  · simp only [String.length_append]
    omega
  · simp only [String.length_append]
    omega
  · simp [isFile, onlyFile]

/-- The name under which the resolver looks is the only one. -/
theorem looksUp_iff : LooksUp specifier name ↔ name = packageNameOf specifier := by
  constructor
  · intro looksUp
    obtain ⟨fs, there⟩ := exists_installed ("/home" ++ "/node_modules") (packageNameOf specifier)
    obtain ⟨own, ownName⟩ := looksUp_packageNameOf specifier fs "/home"
    have installed := own.mpr there
    exact ((looksUp fs "/home").2 installed).symm.trans (ownName installed)
  · rintro rfl
    exact looksUp_packageNameOf specifier

/-- The name and the subpath of a specifier are read as declared exactly when it has no slash or
is scoped. -/
theorem looksUp_declaredName_iff (specifier : String) :
    LooksUp specifier (declaredName specifier) ∧ subpathOf specifier = declaredSubpath specifier ↔
      '/' ∉ specifier.toList ∨ specifier.toList.head? = some '@' := by
  obtain ⟨name, subpath⟩ := packageNameOf_eq_joined specifier
  rw [looksUp_iff, name, subpath, declaredName, declaredSubpath]
  simp only [nameSegments, head?_segments]
  by_cases isScoped : specifier.toList.head? = some '@'
  · simp [isScoped]
  · rw [if_neg isScoped]
    simp only [isScoped, or_false]
    constructor
    · rintro ⟨sameName, _⟩ slash
      rcases segments_cases specifier with ⟨clean, _⟩ | ⟨first, second, _, _, _, split⟩ |
        ⟨first, second, rest, _, _, _, split⟩
      · exact clean slash
      · rw [split] at sameName
        exact joined_singleton_ne first second sameName
      · rw [split] at sameName
        exact joined_singleton_ne first second sameName
    · intro clean
      rcases segments_cases specifier with ⟨_, split⟩ | ⟨first, second, whole, _⟩ |
        ⟨first, second, rest, whole, _⟩
      · simp [split]
      · simp [whole] at clean
      · simp [whole] at clean

/-- The path in an unscoped package is taken for a part of its name. -/
theorem not_looksUp_lodash :
    ¬(LooksUp "lodash/fp" (declaredName "lodash/fp") ∧
      subpathOf "lodash/fp" = declaredSubpath "lodash/fp") ∧
    declaredName "lodash/fp" = "lodash" ∧ declaredSubpath "lodash/fp" = "fp" ∧
    packageNameOf "lodash/fp" = "lodash/fp" ∧ subpathOf "lodash/fp" = "" := by
  rw [looksUp_iff]
  decide

end Lookup

end ModuleResolver

end ProtoJS.Modules

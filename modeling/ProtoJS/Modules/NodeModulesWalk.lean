import ProtoJS.Modules.Resolution
import ProtoJS.Modules.SubpathImports

/-! # The walk over `node_modules`

The resolver goes from a directory up to the root and asks each directory for the entry of the
package. A canonical path is the names on the way from the root, so the directories of the walk
are the beginnings of the names, longest first. The root is not asked, and a package without an
entry leaves its name in the result.
-/

namespace ProtoJS.Modules

namespace ModuleResolver

section Directories

/-- The path of a directory as other paths are built on it; that of the root is empty. -/
def directory (names : List (List Char)) : String := String.ofList (names.flatMap ('/' :: ·))

/-- The path of a directory by itself. -/
def pathOf (names : List (List Char)) : String := if names = [] then "/" else directory names

/-- A directory and all directories above it, nearest first and the root last. -/
def upwards (names : List (List Char)) : List (List (List Char)) := names.inits.reverse

/-- The directories of `upwards` below the root. -/
def belowRoot (names : List (List Char)) : List (List (List Char)) := (upwards names).dropLast

def Proper (names : List (List Char)) : Prop := ∀ name ∈ names, name ≠ [] ∧ '/' ∉ name

variable {names : List (List Char)} {name : List Char}

theorem upwards_concat (names : List (List Char)) (name : List Char) :
    upwards (names ++ [name]) = (names ++ [name]) :: upwards names := by
  simp [upwards, List.inits_append]

theorem belowRoot_concat (names : List (List Char)) (name : List Char) :
    belowRoot (names ++ [name]) = (names ++ [name]) :: belowRoot names := by
  have reached : upwards names ≠ [] := by
    rw [upwards, ne_eq, List.reverse_eq_nil_iff]
    exact List.ne_nil_of_mem ((List.mem_inits _ _).mpr List.nil_prefix)
  rw [belowRoot, belowRoot, upwards_concat, List.dropLast_cons_of_ne_nil reached]

theorem upwards_eq (names : List (List Char)) : upwards names = belowRoot names ++ [[]] := by
  induction names using List.reverseRecOn with
  | nil => rfl
  | append_singleton names name ih =>
    rw [upwards_concat, belowRoot_concat, ih, List.cons_append]

theorem toList_directory_concat (names : List (List Char)) (name : List Char) :
    (directory (names ++ [name])).toList = (directory names).toList ++ '/' :: name := by
  simp [directory]

theorem directory_concat_ne_empty : directory (names ++ [name]) ≠ "" := by
  intro same
  have chars := congrArg String.toList same
  rw [toList_directory_concat] at chars
  simp at chars

theorem directory_concat_ne_slash (present : name ≠ []) :
    directory (names ++ [name]) ≠ "/" := by
  intro same
  have chars := congrArg String.toList same
  rw [toList_directory_concat] at chars
  have sizes := congrArg List.length chars
  have size : 0 < name.length := List.length_pos_iff.mpr present
  simp at sizes
  omega

theorem findLastSlash_directory_concat (clean : '/' ∉ name) :
    findLastSlash (directory (names ++ [name])) = some (directory names).length := by
  have size : (directory (names ++ [name])).length =
      (directory names).length + 1 + name.length := by
    rw [← String.length_toList, toList_directory_concat, List.length_append, List.length_cons,
      String.length_toList]
    omega
  rw [findLastSlash, size, List.range_add, List.range_succ, List.reverse_append,
    List.reverse_append, List.find?_append, toList_directory_concat]
  -- Behind the slash are the characters of the name.
  have behind : ((List.range name.length).map ((directory names).length + 1 + ·)).reverse.find?
      (fun i => ((directory names).toList ++ '/' :: name)[i]? == some '/') = none := by
    rw [List.find?_eq_none]
    intro i member
    simp only [List.mem_reverse, List.mem_map, List.mem_range] at member
    obtain ⟨j, inside, rfl⟩ := member
    have past : (directory names).toList.length ≤ (directory names).length + 1 + j := by
      rw [String.length_toList]
      omega
    have place : (directory names).length + 1 + j - (directory names).toList.length = j + 1 := by
      rw [String.length_toList]
      omega
    rw [List.getElem?_append_right past, place, List.getElem?_cons_succ, beq_iff_eq]
    exact fun slash => clean (List.mem_of_getElem? slash)
  rw [behind, Option.none_or, List.reverse_singleton, List.singleton_append, List.find?_cons_of_pos]
  rw [List.getElem?_append_right (by rw [String.length_toList]), String.length_toList, Nat.sub_self]
  rfl

theorem length_le_length_pathOf (names : List (List Char)) :
    names.length ≤ (pathOf names).length := by
  rw [pathOf]
  split
  · rename_i root
    simp [root]
  · rw [directory, String.length_ofList, List.length_flatMap]
    induction names with
    | nil => exact Nat.le_refl 0
    | cons name names ih =>
      rw [List.map_cons, List.sum_cons, List.length_cons, List.length_cons]
      by_cases last : names = []
      · simp [last]
      · have rest := ih last
        omega

/-- The walk goes up name by name and stops at the root, with any fuel that is enough. -/
theorem ancestors_pathOf (proper : Proper names) {fuel : ℕ} (enough : names.length ≤ fuel) :
    ancestors fuel (pathOf names) = (belowRoot names).map directory := by
  induction names using List.reverseRecOn generalizing fuel with
  | nil =>
    cases fuel with
    | zero => rfl
    | succ fuel => rfl
  | append_singleton names name ih =>
    have own := proper name (by simp)
    have above : Proper names := fun other member => proper other (by simp [member])
    have taken : substr (directory (names ++ [name])) 0 (directory names).length =
        directory names := by
      rw [substr, toList_directory_concat, List.drop_zero, ← String.length_toList, List.take_left]
      exact String.ofList_toList
    have parent : (if directory names = "" then "/" else directory names) = pathOf names := by
      rw [pathOf]
      refine if_congr ?_ rfl rfl
      constructor
      · intro empty
        rcases List.eq_nil_or_concat' names with rfl | ⟨others, last, rfl⟩
        · rfl
        · exact absurd empty directory_concat_ne_empty
      · rintro rfl
        rfl
    rw [List.length_append, List.length_singleton] at enough
    obtain ⟨fuel, rfl⟩ : ∃ less, fuel = less + 1 := ⟨fuel - 1, by omega⟩
    rw [pathOf, if_neg (by simp), ancestors, if_neg, findLastSlash_directory_concat own.2,
      belowRoot_concat, List.map_cons]
    · dsimp only
      rw [taken, parent, ih above (by omega)]
    · rintro (empty | root)
      · exact directory_concat_ne_empty empty
      · exact directory_concat_ne_slash own.1 root

end Directories

section Levels

variable (fs : FileSystem)

/-- The package in the `node_modules` of a directory, where its `package.json` can be read. -/
def packageIn (name current : String) : Option PackageJson :=
  let nodeModules := current ++ "/node_modules"
  let packageDir := nodeModules ++ "/" ++ name
  if isDirectory fs nodeModules && isDirectory fs packageDir &&
      isFile fs (packageDir ++ "/package.json") then
    parsePackageJson fs (packageDir ++ "/package.json")
  else none

variable {fs} {specifier : String}

theorem mainEntry_eq (name current : String) :
    mainEntry fs name current = (packageIn fs name current).bind fun package =>
      locate fs (current ++ "/node_modules" ++ "/" ++ name ++ "/" ++ (entryPointOf package).1) := by
  rw [mainEntry, packageIn]
  split
  · rfl
  · rfl

/-- What a turn of the walk makes of the result: a package that is read leaves its name whether it
has an entry or not. -/
theorem resolveInDirectory_eq (current : String) (result : ResolveResult) :
    resolveInDirectory fs specifier current result =
      match packageIn fs (packageNameOf specifier) current with
      | none => (result, false)
      | some package =>
        match mainEntry fs (packageNameOf specifier) current with
        | none => ({ result with
            isPackage := true
            packageName := packageNameOf specifier
            type := (entryPointOf package).2 }, false)
        | some file => ({ result with
            isPackage := true
            packageName := packageNameOf specifier
            type := typeOfPath (normalizePath fs file)
            filePath := normalizePath fs file }, true) := by
  rw [mainEntry_eq, resolveInDirectory, packageIn]
  split
  · cases parsed : parsePackageJson fs (current ++ "/node_modules" ++ "/" ++
        packageNameOf specifier ++ "/package.json") with
    | none => rfl
    | some package =>
      dsimp only
      rw [tryExports_of_parsed parsed, if_neg (by simp), Option.bind_some]
      split
      · rename_i file found
        rw [found]
        rfl
      · rename_i unfound
        rw [unfound]
  · rfl

/-- The walk returns the nearest entry with all fields of the result, and without one it has
found a package if it has read one. -/
theorem resolveAlong_eq (directories : List String) (result : ResolveResult) :
    let found := resolveAlong fs specifier directories result
    let entry := directories.findSome? (mainEntry fs (packageNameOf specifier))
    (∀ file, entry = some file → found.filePath = normalizePath fs file ∧
      found.isPackage = true ∧ found.packageName = packageNameOf specifier ∧
      found.type = typeOfPath (normalizePath fs file)) ∧
    (entry = none → found.filePath = result.filePath ∧ (found.isPackage = false ↔
      result.isPackage = false ∧
        ∀ current ∈ directories, packageIn fs (packageNameOf specifier) current = none)) := by
  induction directories generalizing result with
  | nil => simp [resolveAlong]
  | cons current rest ih =>
    dsimp only at ih ⊢
    rw [resolveAlong, resolveInDirectory_eq, List.findSome?_cons]
    cases read : packageIn fs (packageNameOf specifier) current with
    | none =>
      have entry : mainEntry fs (packageNameOf specifier) current = none := by
        rw [mainEntry_eq, read, Option.bind_none]
      rw [entry]
      simpa [read] using ih result
    | some package =>
      cases entry : mainEntry fs (packageNameOf specifier) current with
      | some file =>
        constructor
        · rintro _ ⟨⟩
          exact ⟨rfl, rfl, rfl, rfl⟩
        · intro unfound
          cases unfound
      | none =>
        obtain ⟨entered, missed⟩ := ih { result with
          isPackage := true
          packageName := packageNameOf specifier
          type := (entryPointOf package).2 }
        refine ⟨entered, fun unfound => ?_⟩
        simpa [read] using missed unfound

/-- Where a canonical path leads, the walk goes over the directories below the root. -/
theorem resolveNodeModules_eq {startDir : String} {names : List (List Char)}
    (proper : Proper names) (canonical : fs.canonical startDir = some (pathOf names)) :
    resolveNodeModules fs specifier startDir =
      resolveAlong fs specifier ((belowRoot names).map directory) {} := by
  have normalized : normalizePath fs startDir = pathOf names := by
    rw [normalizePath, canonical]
  rw [resolveNodeModules, normalized, ancestors_pathOf proper (length_le_length_pathOf names)]

end Levels

section Completeness

/-- The result is the nearest entry in the directory and those above it, the root among them. If
none of them has one, it says that no package was found. -/
def FindsNearest (fs : FileSystem) (specifier startDir : String) (names : List (List Char)) :
    Prop :=
  let found := resolveNodeModules fs specifier startDir
  let entry := (upwards names).findSome? fun above =>
    mainEntry fs (packageNameOf specifier) (directory above)
  (∀ file, entry = some file → found.filePath = normalizePath fs file ∧
    found.isPackage = true ∧ found.packageName = packageNameOf specifier) ∧
  (entry = none → found.filePath = "" ∧ found.isPackage = false)

variable {fs : FileSystem} {specifier startDir : String} {names : List (List Char)}

/-- Every candidate extends the path that it is for. -/
theorem exists_append_of_locate {path file : String} (found : locate fs path = some file) :
    ∃ more, file = path ++ more := by
  rw [locate_eq_find?] at found
  have member := List.mem_of_find?_eq_some found
  rw [candidates, List.cons_append, List.mem_cons, List.mem_append, List.mem_map] at member
  rcases member with rfl | ⟨extension, _, rfl⟩ | index
  · exact ⟨"", String.append_empty.symm⟩
  · exact ⟨extension, rfl⟩
  · split at index
    · obtain ⟨indexFile, _, rfl⟩ := List.mem_map.mp index
      exact ⟨"/" ++ indexFile, String.append_assoc ..⟩
    · cases index

theorem normalizePath_mainEntry_ne_empty
    (rooted : ∀ path c, fs.canonical path = some c → isAbsolute c = true) {name file : String}
    (entry : mainEntry fs name (directory []) = some file) : normalizePath fs file ≠ "" := by
  refine normalizePath_ne_empty rooted ?_
  rw [mainEntry_eq, Option.bind_eq_some_iff] at entry
  obtain ⟨package, _, found⟩ := entry
  obtain ⟨more, rfl⟩ := exists_append_of_locate found
  simp [isAbsolute, startsIn, directory]

/-- The walk ends, with as many turns as there are directories below the root. It is complete
exactly if one of these has an entry, or the root has none either and none of them has a package
that can be read. -/
theorem findsNearest_iff (rooted : ∀ path c, fs.canonical path = some c → isAbsolute c = true)
    (proper : Proper names) (canonical : fs.canonical startDir = some (pathOf names)) :
    (∀ fuel, names.length ≤ fuel →
      ancestors fuel (pathOf names) = (belowRoot names).map directory) ∧
    (FindsNearest fs specifier startDir names ↔
      (∃ above ∈ belowRoot names,
        mainEntry fs (packageNameOf specifier) (directory above) ≠ none) ∨
      mainEntry fs (packageNameOf specifier) (directory []) = none ∧
        ∀ above ∈ belowRoot names,
          packageIn fs (packageNameOf specifier) (directory above) = none) := by
  refine ⟨fun _ enough => ancestors_pathOf proper enough, ?_⟩
  obtain ⟨entered, missed⟩ :=
    @resolveAlong_eq fs specifier ((belowRoot names).map directory) {}
  rw [← resolveNodeModules_eq proper canonical, List.findSome?_map,
    Function.comp_def] at entered missed
  rw [FindsNearest, upwards_eq, List.findSome?_append]
  cases nearest : (belowRoot names).findSome? fun above =>
      mainEntry fs (packageNameOf specifier) (directory above) with
  | some file =>
    obtain ⟨above, member, here⟩ := List.exists_of_findSome?_eq_some nearest
    have shown := entered file nearest
    refine iff_of_true ⟨?_, nofun⟩ (.inl ⟨above, member, ?_⟩)
    · rintro _ ⟨⟩
      exact ⟨shown.1, shown.2.1, shown.2.2.1⟩
    · rw [here]
      nofun
  | none =>
    obtain ⟨unset, package⟩ := missed nearest
    have nowhere : ¬∃ above ∈ belowRoot names,
        mainEntry fs (packageNameOf specifier) (directory above) ≠ none := by
      rintro ⟨above, member, entry⟩
      exact entry (List.findSome?_eq_none_iff.mp nearest above member)
    simp only [List.mem_map, forall_exists_index, and_imp, forall_apply_eq_imp_iff₂,
      true_and] at package
    rw [Option.none_or, ← package, or_iff_right nowhere]
    cases root : mainEntry fs (packageNameOf specifier) (directory []) with
    | none => simp [root, unset]
    | some file =>
      refine iff_of_false ?_ (by simp)
      rintro ⟨returned, _⟩
      have path := (returned file (by simp [root])).1
      exact normalizePath_mainEntry_ne_empty rooted root (path.symm.trans unset)

/-- A package in the root, and one without an entry file below it. -/
def rootAndHalf : FileSystem := .ofFiles
  [("/node_modules/p/package.json", "\x7b\x7d"), ("/node_modules/p/index.js", ""),
    ("/app/node_modules/q/package.json", "\x7b\x7d"), ("/app/node_modules/r/package.json", ""),
    ("/app/node_modules/r/index.js", "")]
  ["/node_modules", "/node_modules/p", "/app", "/app/node_modules", "/app/node_modules/q",
    "/app/node_modules/r"]

theorem isAbsolute_of_ofFiles {files : List (String × String)} {directories : List String}
    (absolute : ∀ path ∈ files.map Prod.fst ++ directories, isAbsolute path = true)
    {path c : String} (canonical : (FileSystem.ofFiles files directories).canonical path = some c) :
    isAbsolute c = true := by
  simp only [FileSystem.ofFiles, Option.ite_none_right_eq_some, Option.some.injEq] at canonical
  obtain ⟨there, rfl⟩ := canonical
  refine absolute _ (List.mem_append.mpr (there.imp_left fun file => ?_))
  obtain ⟨content, listed⟩ := Option.isSome_iff_exists.mp file
  obtain ⟨before, after, split, _⟩ := List.lookup_eq_some_iff.mp listed
  rw [split]
  simp

theorem proper_app : Proper ["app".toList] := by
  intro name member
  rw [List.mem_singleton] at member
  subst member
  decide

theorem findsNearest_iff_installed : FindsNearest rootAndHalf "r" "/app" ["app".toList] :=
  (findsNearest_iff (fun _ _ => isAbsolute_of_ofFiles (by decide)) proper_app (by decide)).2.mpr
    (.inl ⟨["app".toList], by decide, by decide⟩)

/-- The package in the root is not found, and the one without an entry is. -/
theorem not_findsNearest_rootAndHalf :
    ¬FindsNearest rootAndHalf "p" "/app" ["app".toList] ∧
    ¬FindsNearest rootAndHalf "q" "/app" ["app".toList] ∧
    (resolveNodeModules rootAndHalf "p" "/app").filePath = "" ∧
    resolveNodeModules rootAndHalf "q" "/app" = { packageName := "q", isPackage := true } := by
  have unfound : (resolveNodeModules rootAndHalf "p" "/app").filePath = "" := by decide +kernel
  have half : resolveNodeModules rootAndHalf "q" "/app" =
      { packageName := "q", isPackage := true } := by
    decide +kernel
  refine ⟨?_, ?_, unfound, half⟩
  · rintro ⟨nearest, _⟩
    have path := (nearest "/node_modules/p/index.js" (by decide +kernel)).1
    rw [unfound] at path
    revert path
    decide
  · rintro ⟨_, nowhere⟩
    have package := (nowhere (by decide +kernel)).2
    rw [half] at package
    cases package

end Completeness

section PackageTypes

/-- The content of the `package.json` of the nearest package with an entry, and the path of the
entry file. -/
def nearestPackage (fs : FileSystem) (specifier startDir : String) : Option (String × String) :=
  (walk fs startDir).findSome? fun current =>
    (mainEntry fs (packageNameOf specifier) current).bind fun file =>
      (fs.readFile (current ++ "/node_modules" ++ "/" ++ packageNameOf specifier ++
        "/package.json")).map fun content => (content, normalizePath fs file)

/-- The type of an entry file is that of its ending, and where it ends as a script does, that of
its package. -/
def TypeOfEntry (packageType entry : String) (type : ModuleType) : Prop :=
  (endsIn ".js" entry = true → type = if packageType = "module" then .esm else .commonJS) ∧
  (endsIn ".mjs" entry = true → type = .esm) ∧
  (isNativeExtension entry = true → type = .native)

/-- The entry of a package is returned, with the type that the package gives it. `typeIn` reads
the type in a `package.json`. -/
def HonoursType (fs : FileSystem) (typeIn : String → String) (specifier startDir : String) : Prop :=
  ∀ content entry, nearestPackage fs specifier startDir = some (content, entry) →
    (resolveNodeModules fs specifier startDir).filePath = entry ∧
    TypeOfEntry (typeIn content) entry (resolveNodeModules fs specifier startDir).type

variable {fs : FileSystem} {specifier startDir : String}

/-- A package with an entry has a `package.json` that can be read. -/
theorem isSome_readFile_of_mainEntry {name current file : String}
    (entry : mainEntry fs name current = some file) :
    (fs.readFile (current ++ "/node_modules" ++ "/" ++ name ++ "/package.json")).isSome = true := by
  rw [mainEntry_eq, Option.bind_eq_some_iff] at entry
  obtain ⟨package, read, _⟩ := entry
  rw [packageIn] at read
  split at read
  · rw [parsePackageJson, Option.map_eq_some_iff] at read
    obtain ⟨content, opened, _⟩ := read
    rw [opened, Option.isSome_some]
  · cases read

/-- What the resolver returns for the nearest package has the type of its ending alone. -/
theorem resolveNodeModules_of_nearestPackage {content entry : String}
    (nearest : nearestPackage fs specifier startDir = some (content, entry)) :
    (resolveNodeModules fs specifier startDir).filePath = entry ∧
      (resolveNodeModules fs specifier startDir).type = typeOfPath entry := by
  obtain ⟨nearer, current, farther, split, found, unfound⟩ :=
    List.findSome?_eq_some_iff.mp nearest
  obtain ⟨file, main, read⟩ := Option.bind_eq_some_iff.mp found
  obtain ⟨_, _, same⟩ := Option.map_eq_some_iff.mp read
  cases same
  have first : (walk fs startDir).findSome? (mainEntry fs (packageNameOf specifier)) =
      some file := by
    refine List.findSome?_eq_some_iff.mpr ⟨nearer, current, farther, split, main, ?_⟩
    intro other member
    by_contra there
    obtain ⟨otherFile, entry⟩ := Option.ne_none_iff_exists'.mp there
    obtain ⟨text, opened⟩ := Option.isSome_iff_exists.mp (isSome_readFile_of_mainEntry entry)
    have missed := unfound other member
    rw [entry, Option.bind_some, opened] at missed
    cases missed
  obtain ⟨entered, _⟩ := @resolveAlong_eq fs specifier (walk fs startDir) {}
  obtain ⟨path, _, _, type⟩ := entered file first
  exact ⟨path, type⟩

/-- The type of a package is honoured exactly if it is not that of a module with a `.js` entry. -/
theorem honoursType_iff (fs : FileSystem) (typeIn : String → String)
    (specifier startDir : String) :
    HonoursType fs typeIn specifier startDir ↔
      ∀ content entry, nearestPackage fs specifier startDir = some (content, entry) →
        ¬(typeIn content = "module" ∧ endsIn ".js" entry = true) := by
  constructor
  · rintro honours content entry nearest ⟨isModule, script⟩
    obtain ⟨_, byPackage, _⟩ := honours content entry nearest
    have type := byPackage script
    rw [if_pos isModule, (resolveNodeModules_of_nearestPackage nearest).2,
      typeOfPath_eq_esm_iff] at type
    rw [not_endsIn_of_apart type (by decide) (by decide)] at script
    cases script
  · intro other content entry nearest
    obtain ⟨path, type⟩ := resolveNodeModules_of_nearestPackage nearest
    refine ⟨path, ?_⟩
    rw [type]
    refine ⟨fun script => ?_, typeOfPath_eq_esm_iff.mpr, typeOfPath_eq_native_iff.mpr⟩
    rw [if_neg fun isModule => other content entry nearest ⟨isModule, script⟩,
      typeOfPath_eq_commonJS_iff]
    exact ⟨not_endsIn_of_apart script (by decide) (by decide),
      not_isNativeExtension_of_apart script (by decide)⟩

/-- A package of ES modules with a script as its entry. -/
def modulePackage : FileSystem := .ofFiles
  [("/app/node_modules/p/package.json", "\x7b\"type\":\"module\"\x7d"),
    ("/app/node_modules/p/index.js", "")]
  ["/app", "/app/node_modules", "/app/node_modules/p"]

/-- The script is taken for a CommonJS module. -/
theorem not_honoursType_modulePackage :
    ¬HonoursType modulePackage (extractField · "type") "p" "/app" ∧
    resolveNodeModules modulePackage "p" "/app" =
      { filePath := "/app/node_modules/p/index.js", packageName := "p", isPackage := true } := by
  have returned : resolveNodeModules modulePackage "p" "/app" =
      { filePath := "/app/node_modules/p/index.js", packageName := "p", isPackage := true } := by
    decide +kernel
  have package : nearestPackage modulePackage "p" "/app" =
      some ("\x7b\"type\":\"module\"\x7d", "/app/node_modules/p/index.js") := by
    decide +kernel
  refine ⟨fun honours => ?_, returned⟩
  have type := (honours _ _ package).2.1 (by decide)
  rw [returned, if_pos (by decide)] at type
  cases type

end PackageTypes

end ModuleResolver

end ProtoJS.Modules

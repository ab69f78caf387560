import ProtoJS.Modules.ModuleIdentity

/-! # What a specifier resolves to

The cascade of a path specifier is one list of candidates, of which the first regular file is
taken. A specifier that leads nowhere leaves the path of the result empty, except that an absolute
one leaves its own path there.
-/

namespace ProtoJS.Modules

namespace ModuleResolver

/-- The path that the candidates of a relative or absolute specifier extend. -/
def basePath (fs : FileSystem) (specifier fromPath : String) : String :=
  normalizePath fs
    (if isAbsolute specifier then specifier else fromDir fs fromPath ++ "/" ++ specifier)

/-- The path, the path with each extension, and the index files if it is a directory. -/
def candidates (fs : FileSystem) (base : String) : List String :=
  base :: (getResolutionOrderExtensions fs.platform).map (base ++ ·) ++
    if isDirectory fs base then (indexFiles fs).map fun indexFile => base ++ "/" ++ indexFile
    else []

section Order

variable {fs : FileSystem} {specifier fromPath base : String}

/-- The nested searches are one search. -/
theorem locate_eq_find? (fs : FileSystem) (base : String) :
    locate fs base = (candidates fs base).find? (isFile fs) := by
  rw [locate, candidates, List.cons_append]
  cases exact : isFile fs base with
  | true => rw [List.find?_cons_of_pos exact, if_pos rfl]
  | false =>
    rw [List.find?_cons_of_neg (by simp [exact]), List.find?_append, if_neg (by simp)]
    cases tried : tryExtensions fs base (getResolutionOrderExtensions fs.platform) with
    | some withExt =>
      rw [tryExtensions] at tried
      rw [tried, Option.some_or]
    | none =>
      rw [tryExtensions] at tried
      rw [tried, Option.none_or]
      dsimp only
      split
      · rfl
      · rfl

theorem locate_eq_none_iff :
    locate fs base = none ↔ ∀ candidate ∈ candidates fs base, isFile fs candidate = false := by
  simp [locate_eq_find?, List.find?_eq_none]

/-- Both kinds of path specifier take what the cascade finds. -/
theorem resolve_of_locate {file : String}
    (isPath : isAbsolute specifier = true ∨ isRelative specifier = true)
    (found : locate fs (basePath fs specifier fromPath) = some file) :
    resolve fs specifier fromPath = setTypeFromPath { filePath := file } := by
  rw [resolve]
  rw [basePath] at found
  cases absolute : isAbsolute specifier with
  | true =>
    rw [absolute, if_pos rfl] at found
    rw [if_pos rfl, resolveAbsolute]
    simp only [found]
  | false =>
    have relative : isRelative specifier = true := by simpa [absolute] using isPath
    rw [absolute, if_neg (by simp)] at found
    rw [if_neg (by simp), if_pos relative, resolveRelative]
    simp only [found]

/-- No path ends in two suffixes of which neither ends in the other. -/
theorem not_endsIn_of_apart {suffix other : String} (ends : endsIn other base = true)
    (apart : ¬suffix.toList <:+ other.toList) (apart' : ¬other.toList <:+ suffix.toList) :
    endsIn suffix base = false := by
  rw [endsIn, List.isSuffixOf_iff_suffix] at ends
  rw [endsIn, ← Bool.not_eq_true, List.isSuffixOf_iff_suffix]
  intro both
  rcases List.suffix_or_suffix_of_suffix both ends with within | within
  · exact apart within
  · exact apart' within

/-- A path that ends in a suffix unlike all endings of native libraries is none. -/
theorem not_isNativeExtension_of_apart {other : String} (ends : endsIn other base = true)
    (apart : ∀ suffix ∈ [".node", ".so", ".dll", ".dylib", ".protojs"],
      ¬suffix.toList <:+ other.toList ∧ ¬other.toList <:+ suffix.toList) :
    isNativeExtension base = false := by
  have clash (suffix : String) (listed : suffix ∈ [".node", ".so", ".dll", ".dylib", ".protojs"]) :
      endsIn suffix base = false :=
    not_endsIn_of_apart ends (apart suffix listed).1 (apart suffix listed).2
  simp only [isNativeExtension, Bool.or_eq_false_iff]
  refine ⟨⟨⟨⟨?_, ?_⟩, ?_⟩, ?_⟩, ?_⟩
  · exact clash ".node" (by simp)
  · exact clash ".so" (by simp)
  · exact clash ".dll" (by simp)
  · exact clash ".dylib" (by simp)
  · exact clash ".protojs" (by simp)

/-- No path ends both as an ES module and as a native library. -/
theorem not_isNativeExtension_of_mjs (esm : endsIn ".mjs" base = true) :
    isNativeExtension base = false :=
  not_isNativeExtension_of_apart esm (by decide)

theorem typeOfPath_eq_esm_iff : typeOfPath base = .esm ↔ endsIn ".mjs" base = true := by
  unfold typeOfPath
  split
  · simp [*]
  · split <;> simp [*]

theorem typeOfPath_eq_native_iff : typeOfPath base = .native ↔ isNativeExtension base = true := by
  unfold typeOfPath
  split
  · rename_i esm
    simp [not_isNativeExtension_of_mjs esm]
  · split <;> simp [*]

theorem typeOfPath_eq_commonJS_iff : typeOfPath base = .commonJS ↔
    endsIn ".mjs" base = false ∧ isNativeExtension base = false := by
  unfold typeOfPath
  split
  · simp [*]
  · split <;> simp [*]

/-- A path specifier resolves to the first candidate that is a regular file, and the type of the
result says how that path ends. -/
theorem resolve_eq_first (isPath : isAbsolute specifier = true ∨ isRelative specifier = true)
    (there : ∃ candidate ∈ candidates fs (basePath fs specifier fromPath),
      isFile fs candidate = true) :
    (candidates fs (basePath fs specifier fromPath)).find? (isFile fs) =
        some (resolve fs specifier fromPath).filePath ∧
      ((resolve fs specifier fromPath).type = .esm ↔
        endsIn ".mjs" (resolve fs specifier fromPath).filePath = true) ∧
      ((resolve fs specifier fromPath).type = .native ↔
        isNativeExtension (resolve fs specifier fromPath).filePath = true) ∧
      ((resolve fs specifier fromPath).type = .commonJS ↔
        endsIn ".mjs" (resolve fs specifier fromPath).filePath = false ∧
          isNativeExtension (resolve fs specifier fromPath).filePath = false) := by
  obtain ⟨file, found⟩ : ∃ file, locate fs (basePath fs specifier fromPath) = some file := by
    rw [locate_eq_find?, ← Option.isSome_iff_exists, List.find?_isSome]
    exact there
  rw [resolve_of_locate isPath found, ← locate_eq_find?]
  exact ⟨found, typeOfPath_eq_esm_iff, typeOfPath_eq_native_iff, typeOfPath_eq_commonJS_iff⟩

/-- A module that is there as a native library and as a script. -/
def mixed : FileSystem := .ofFiles
  [("/app/main.js", ""), ("/app/lib.so", ""), ("/app/lib.js", ""), ("/app/lib.mjs", "")] ["/app"]

theorem resolve_eq_first_mixed :
    (candidates mixed (basePath mixed "./lib" "/app/main.js")).find? (isFile mixed) =
        some (resolve mixed "./lib" "/app/main.js").filePath ∧
      (resolve mixed "./lib" "/app/main.js").type = .native := by
  have there : ∃ candidate ∈ candidates mixed (basePath mixed "./lib" "/app/main.js"),
      isFile mixed candidate = true := ⟨"/app/./lib.so", by decide, by decide +kernel⟩
  have first := resolve_eq_first (.inr (by decide)) there
  exact ⟨first.1, first.2.2.1.mpr (by decide)⟩

end Order

section Soundness

variable {fs : FileSystem} {specifier fromPath : String}

/-- The resolver takes a path as it is or with its slashes collapsed, and POSIX does not tell
these apart. -/
structure Posix (fs : FileSystem) : Prop extends fs.Lawful where
  stat_slashes : ∀ path, fs.stat (String.ofList (collapseSlashes path.toList)) = fs.stat path

theorem posix_ofSpellings {spellings : List (String × String × FileKind)}
    (lawful : (FileSystem.ofSpellings spellings).Lawful) :
    Posix (FileSystem.ofSpellings spellings) where
  toLawful := lawful
  stat_slashes path := by simp [FileSystem.ofSpellings, collapseSlashes_idem]

/-- Normalising a path leads to the same file. -/
theorem isFile_normalizePath (posix : Posix fs) (path : String) :
    isFile fs (normalizePath fs path) = isFile fs path := by
  rw [isFile, isFile, normalizePath]
  split
  · rename_i normalized canonical
    rw [posix.stat_canonical path normalized canonical]
  · rw [posix.stat_slashes]

theorem normalizePath_ne_empty
    (rooted : ∀ path c, fs.canonical path = some c → isAbsolute c = true)
    (absolute : isAbsolute specifier = true) : normalizePath fs specifier ≠ "" := by
  intro empty
  rw [normalizePath] at empty
  split at empty
  · rename_i normalized canonical
    have rooted := rooted specifier normalized canonical
    rw [empty] at rooted
    exact absurd rooted (by decide)
  · obtain ⟨rest, same⟩ : ∃ rest, '/' :: rest = specifier.toList :=
      List.isPrefixOf_iff_prefix.mp absolute
    have head := head?_collapseSlashes specifier.toList
    rw [String.ofList_eq_empty_iff.mp empty, ← same] at head
    cases head

/-- What is returned is a file, or nothing. -/
def Sound (fs : FileSystem) (result : ResolveResult) : Prop :=
  result.filePath ≠ "" → isFile fs result.filePath = true

theorem sound_empty {result : ResolveResult} (empty : result.filePath = "") : Sound fs result :=
  fun found => absurd empty found

private theorem sound_resolveExports (posix : Posix fs)
    (packageJsonPath subpath packageDir : String) :
    Sound fs (resolveExports fs packageJsonPath subpath packageDir) := by
  unfold resolveExports
  split
  · exact sound_empty rfl
  · split
    · exact sound_empty rfl
    · simp only
      split
      · rename_i there
        intro _
        exact (isFile_normalizePath posix _).trans there
      · split
        · rename_i withExt tried
          intro _
          exact (isFile_normalizePath posix _).trans (List.find?_some tried)
        · exact sound_empty rfl

private theorem sound_tryExports (posix : Posix fs) (packageJson packageDir : String)
    (package : PackageJson) :
    Sound fs (tryExports fs packageJson packageDir specifier package) := by
  unfold tryExports
  split
  · exact sound_resolveExports posix _ _ _
  · exact sound_empty rfl

/-- A turn of the walk returns a file, and otherwise leaves the path as it was. -/
private theorem sound_resolveInDirectory (posix : Posix fs) (current : String)
    {result : ResolveResult} (sound : Sound fs result) :
    Sound fs (resolveInDirectory fs specifier current result).1 := by
  unfold resolveInDirectory
  simp only
  split
  · split
    · exact sound
    · rename_i package _
      split
      · exact sound_tryExports posix _ _ package
      · split
        · rename_i file found
          intro _
          exact (isFile_normalizePath posix file).trans (isFile_of_locate found)
        · exact sound
  · exact sound

private theorem sound_resolveRelative (directory : String) :
    Sound fs (resolveRelative fs directory specifier) := by
  unfold resolveRelative
  split
  · rename_i file found
    exact fun _ => isFile_of_locate found
  · exact sound_empty rfl

/-- A specifier that does not start with a slash. -/
theorem sound_of_not_isAbsolute (posix : Posix fs) (other : isAbsolute specifier = false) :
    Sound fs (resolve fs specifier fromPath) := by
  rw [resolve, if_neg (by simp [other])]
  split
  · exact sound_resolveRelative (fromDir fs fromPath)
  · refine resolveAlong_keeps (fun current _ => ?_) _ (sound_empty rfl)
    exact sound_resolveInDirectory posix current

/-- A path that is returned names a regular file, unless the specifier is absolute and none of
its candidates is one. -/
theorem sound_iff (posix : Posix fs) (specifier fromPath : String) :
    Sound fs (resolve fs specifier fromPath) ↔
      ¬(isAbsolute specifier = true ∧
        ∀ candidate ∈ candidates fs (normalizePath fs specifier),
          isFile fs candidate = false) := by
  rw [← locate_eq_none_iff]
  cases absolute : isAbsolute specifier with
  | false => simpa using sound_of_not_isAbsolute posix absolute
  | true =>
    simp only [resolve, absolute, if_true, resolveAbsolute, true_and]
    cases found : locate fs (normalizePath fs specifier) with
    | some file =>
      refine iff_of_true ?_ (by simp)
      exact fun _ => isFile_of_locate found
    | none =>
      refine iff_of_false ?_ (by simp)
      intro sound
      -- The path itself is the first of the candidates that are no file.
      have missing := locate_eq_none_iff.mp found (normalizePath fs specifier) (by simp [candidates])
      have there := sound (normalizePath_ne_empty posix.absolute absolute)
      rw [missing] at there
      cases there

theorem posix_neighbours : Posix neighbours := posix_ofSpellings lawful_neighbours

theorem sound_iff_neighbours : Sound neighbours (resolve neighbours "./b" "/app/main.js") ∧
    Sound neighbours (resolve neighbours "/app/a" "/app/main.js") :=
  ⟨(sound_iff posix_neighbours "./b" "/app/main.js").mpr (by decide),
    (sound_iff posix_neighbours "/app/a" "/app/main.js").mpr (by decide)⟩

/-- An absolute specifier is found where there is nothing. -/
theorem not_sound_absent : (resolve neighbours "/app/b" "/app/main.js").filePath = "/app/b" ∧
    neighbours.stat "/app/b" = none ∧
    ¬Sound neighbours (resolve neighbours "/app/b" "/app/main.js") := by
  have returned : (resolve neighbours "/app/b" "/app/main.js").filePath = "/app/b" := by
    decide
  have absent : neighbours.stat "/app/b" = none := by decide
  refine ⟨returned, absent, fun sound => ?_⟩
  have there := sound (by rw [returned]; decide)
  rw [returned, isFile, absent] at there
  cases there

end Soundness

end ModuleResolver

end ProtoJS.Modules

import ProtoJS.Modules.CommonJSLoader

/-! # One path for one file

`resolve` asks for the canonical path before it tries extensions and index files, not after. A
specifier that names a file in full leads to its canonical path; one that is completed leads to
whatever the completion appends to, and where that still has dot segments or symbolic links in it
the file gets a second path, and the loader a second cache key.
-/

namespace ProtoJS.Modules

namespace FileSystem

/-- What POSIX promises of a file system that does not change. -/
structure Lawful (fs : FileSystem) : Prop where
  /-- A canonical path is its own canonical path. -/
  canonical_self : ∀ path c, fs.canonical path = some c → fs.canonical c = some c
  absolute : ∀ path c, fs.canonical path = some c → ModuleResolver.isAbsolute c = true
  undotted : ∀ path c, fs.canonical path = some c → ¬['/', '.', '/'] <:+: c.toList ∧
    ¬['/', '.', '.', '/'] <:+: c.toList
  /-- It leads to the same file. -/
  stat_canonical : ∀ path c, fs.canonical path = some c → fs.stat c = fs.stat path
  /-- Several slashes count as one. -/
  slashes : ∀ path, fs.canonical (String.ofList (ModuleResolver.collapseSlashes path.toList)) =
    fs.canonical path
  stat_empty : fs.stat "" = none

/-- A file system that knows some spellings, each with its canonical path and what is there. -/
def ofSpellings (spellings : List (String × String × FileKind)) : FileSystem where
  platform := .unix
  stat path := (spellings.lookup (String.ofList (ModuleResolver.collapseSlashes path.toList))).map
    Prod.snd
  canonical path := (spellings.lookup
    (String.ofList (ModuleResolver.collapseSlashes path.toList))).map Prod.fst
  readFile path := match spellings.lookup
      (String.ofList (ModuleResolver.collapseSlashes path.toList)) with
    | some (_, .regular) => some ""
    | _ => none

end FileSystem

namespace ModuleResolver

section Slashes

theorem head?_collapseSlashes (path : List Char) :
    (collapseSlashes path).head? = path.head? := by
  induction path with
  | nil => rfl
  | cons c rest ih =>
    rw [collapseSlashes]
    split
    · rename_i double
      rw [ih, double.2, List.head?_cons, double.1]
    · rfl

theorem collapseSlashes_idem (path : List Char) :
    collapseSlashes (collapseSlashes path) = collapseSlashes path := by
  induction path with
  | nil => rfl
  | cons c rest ih =>
    rw [collapseSlashes]
    split
    · exact ih
    · rename_i single
      rw [collapseSlashes, if_neg, ih]
      rw [head?_collapseSlashes]
      exact single

private theorem collapseSlashes_append {name : List Char} (clean : '/' ∉ name) (rest : List Char) :
    collapseSlashes (name ++ rest) = name ++ collapseSlashes rest := by
  induction name with
  | nil => rfl
  | cons c name ih =>
    rw [List.mem_cons, not_or] at clean
    obtain ⟨other, clean⟩ := clean
    rw [List.cons_append, collapseSlashes, if_neg, ih clean, List.cons_append]
    exact fun double => other double.1.symm

private theorem suffix_collapseSlashes (before rest : List Char) :
    collapseSlashes rest <:+ collapseSlashes (before ++ rest) := by
  induction before with
  | nil => exact List.suffix_rfl
  | cons c before ih =>
    rw [List.cons_append, collapseSlashes]
    split
    · exact ih
    · exact ih.trans (List.suffix_cons ..)

/-- A segment of a path survives. -/
theorem infix_collapseSlashes {name : List Char} (clean : '/' ∉ name) (nonempty : name ≠ [])
    (before after : List Char) :
    '/' :: (name ++ ['/']) <:+: collapseSlashes (before ++ '/' :: (name ++ '/' :: after)) := by
  obtain ⟨later, same⟩ : ∃ later, collapseSlashes ('/' :: after) = '/' :: later := by
    have head := head?_collapseSlashes ('/' :: after)
    cases collapsed : collapseSlashes ('/' :: after) with
    | nil => simp [collapsed] at head
    | cons c later =>
      rw [collapsed] at head
      cases head
      exact ⟨later, rfl⟩
  have single : ¬('/' = '/' ∧ (name ++ '/' :: after).head? = some '/') := by
    rintro ⟨_, head⟩
    cases name with
    | nil => exact nonempty rfl
    | cons c name =>
      cases head
      exact clean List.mem_cons_self
  have here : collapseSlashes ('/' :: (name ++ '/' :: after)) =
      '/' :: (name ++ ['/']) ++ later := by
    rw [collapseSlashes, if_neg single, collapseSlashes_append clean, same]
    simp
  refine List.IsInfix.trans ?_ (suffix_collapseSlashes before _).isInfix
  rw [here]
  exact (List.prefix_append ..).isInfix

end Slashes

/-- The path of a file, or of a directory with an index file, that is not the file itself. -/
def completion (fs : FileSystem) (path : String) : Option String :=
  match tryExtensions fs path (getResolutionOrderExtensions fs.platform) with
  | some withExt => some withExt
  | none => if isDirectory fs path then tryDirectory fs path else none

/-- What a file is asked for by. -/
structure Spelling where
  specifier : String
  fromPath : String
deriving DecidableEq, Repr

namespace Spelling

variable (fs : FileSystem) (x : Spelling)

/-- A relative or absolute specifier. -/
def IsPath : Prop := isAbsolute x.specifier = true ∨ isRelative x.specifier = true

/-- The path that is normalised first. -/
def formed : String :=
  if isAbsolute x.specifier then x.specifier else fromDir fs x.fromPath ++ "/" ++ x.specifier

def filePath : String := (resolve fs x.specifier x.fromPath).filePath

/-- It is resolved to the regular file with that canonical path. -/
def Names (c : String) : Prop :=
  x.IsPath ∧ isFile fs (x.filePath fs) = true ∧ fs.canonical (x.filePath fs) = some c

/-- It names a file in full, or what completes it is a canonical path. -/
def Canonical : Prop :=
  isFile fs (normalizePath fs (x.formed fs)) = true ∨
    ∃ completed, completion fs (normalizePath fs (x.formed fs)) = some completed ∧
      fs.canonical completed = some completed

end Spelling

section Identity

variable {fs : FileSystem} {x : Spelling} {c path : String}

theorem locate_eq (fs : FileSystem) (path : String) :
    locate fs path = if isFile fs path then some path else completion fs path := rfl

theorem normalizePath_canonical (lawful : fs.Lawful) (canonical : fs.canonical path = some c) :
    normalizePath fs c = c := by
  rw [normalizePath, lawful.canonical_self path c canonical]

/-- A normalised path that has a canonical one is it. -/
theorem canonical_normalizePath (lawful : fs.Lawful)
    (canonical : fs.canonical (normalizePath fs path) = some c) : normalizePath fs path = c := by
  rw [normalizePath] at canonical ⊢
  cases found : fs.canonical path with
  | some normalized =>
    rw [found] at canonical
    simpa [lawful.canonical_self path normalized found] using canonical
  | none =>
    rw [found] at canonical
    simp only [lawful.slashes, found] at canonical
    cases canonical

theorem locate_of_names (lawful : fs.Lawful) (names : x.Names fs c) :
    locate fs (normalizePath fs (x.formed fs)) = some (x.filePath fs) := by
  obtain ⟨isPath, there, _⟩ := names
  rw [Spelling.filePath, resolve] at there ⊢
  rw [Spelling.formed]
  cases absolute : isAbsolute x.specifier with
  | true =>
    simp only [absolute, if_true, resolveAbsolute] at there ⊢
    cases found : locate fs (normalizePath fs x.specifier) with
    | some file => simp [setTypeFromPath]
    | none =>
      simp only [found] at there
      simp [locate_eq, there] at found
  | false =>
    have relative : isRelative x.specifier = true := by
      simpa [Spelling.IsPath, absolute] using isPath
    simp only [absolute, relative, Bool.false_eq_true, if_false, if_true,
      resolveRelative] at there ⊢
    cases found : locate fs (normalizePath fs (fromDir fs x.fromPath ++ "/" ++ x.specifier)) with
    | some file => simp [setTypeFromPath]
    | none =>
      simp only [found] at there
      simp [isFile, lawful.stat_empty] at there

/-- The path returned is the canonical one exactly for the specifiers spelled canonically. -/
theorem filePath_eq_iff (lawful : fs.Lawful) (names : x.Names fs c) :
    x.filePath fs = c ↔ x.Canonical fs := by
  have located := locate_of_names lawful names
  obtain ⟨_, _, canonical⟩ := names
  rw [locate_eq] at located
  rw [Spelling.Canonical]
  generalize x.filePath fs = file at located canonical
  split at located
  · rename_i there
    cases located
    exact iff_of_true (canonical_normalizePath lawful canonical) (.inl there)
  · rename_i absent
    rw [located]
    simp [absent, canonical, eq_comm]

/-- The canonical path of a file leads to the file, as it is. -/
theorem names_canonical (lawful : fs.Lawful) (names : x.Names fs c) (fromPath : String) :
    (⟨c, fromPath⟩ : Spelling).Names fs c ∧ (⟨c, fromPath⟩ : Spelling).filePath fs = c := by
  obtain ⟨_, there, canonical⟩ := names
  have absolute : isAbsolute c = true := lawful.absolute _ c canonical
  have stat : isFile fs c = true := by
    rw [isFile, lawful.stat_canonical _ c canonical]
    exact there
  have same : (⟨c, fromPath⟩ : Spelling).filePath fs = c := by
    simp [Spelling.filePath, resolve, absolute, resolveAbsolute,
      normalizePath_canonical lawful canonical, locate_eq, stat, setTypeFromPath]
  refine ⟨⟨.inl absolute, ?_, ?_⟩, same⟩
  · rw [same, stat]
  · rw [same, lawful.canonical_self _ c canonical]

/-- Among specifiers that include, with each one, the canonical path of the file it leads to, any
two that lead to the same file return the same path exactly if each is spelled canonically. -/
theorem filePaths_agree_iff (lawful : fs.Lawful) (spellings : Set Spelling)
    (full : ∀ x ∈ spellings, ∀ c, x.Names fs c → ∃ fromPath, ⟨c, fromPath⟩ ∈ spellings) :
    (∀ x ∈ spellings, ∀ y ∈ spellings, ∀ c, x.Names fs c → y.Names fs c →
        x.filePath fs = y.filePath fs) ↔
      ∀ x ∈ spellings, ∀ c, x.Names fs c → x.Canonical fs := by
  constructor
  · intro agree x member c names
    obtain ⟨fromPath, also⟩ := full x member c names
    obtain ⟨named, same⟩ := names_canonical lawful names fromPath
    rw [← filePath_eq_iff lawful names, agree x member _ also c names named, same]
  · intro canonical x member y also c left right
    calc x.filePath fs
      _ = c := (filePath_eq_iff lawful left).mpr (canonical x member c left)
      _ = y.filePath fs := ((filePath_eq_iff lawful right).mpr (canonical y also c right)).symm

/-- A completion appends to the path. -/
theorem prefix_completion {completed : String} (found : completion fs path = some completed) :
    path.toList <+: completed.toList := by
  rw [completion] at found
  split at found
  · rename_i withExt tried
    cases found
    obtain ⟨extension, _, rfl⟩ := List.mem_map.mp (List.mem_of_find?_eq_some tried)
    simp
  · split at found
    · obtain ⟨indexFile, _, rfl⟩ := List.mem_map.mp (List.mem_of_find?_eq_some found)
      simp
    · cases found

/-- A relative specifier has a dot segment. -/
theorem dotted_of_isRelative {specifier : String} (relative : isRelative specifier = true)
    (directory : String) : ∃ dots, (dots = ['.'] ∨ dots = ['.', '.']) ∧
      '/' :: (dots ++ ['/']) <:+: collapseSlashes (directory ++ "/" ++ specifier).toList := by
  simp only [isRelative, startsIn, Bool.or_eq_true, List.isPrefixOf_iff_prefix] at relative
  rcases relative with ⟨rest, same⟩ | ⟨rest, same⟩
  · refine ⟨['.'], .inl rfl, ?_⟩
    have dots : '/' :: (['.'] ++ ['/']) <:+: _ :=
      infix_collapseSlashes (by decide) (by decide) directory.toList rest
    simpa [← same] using dots
  · refine ⟨['.', '.'], .inr rfl, ?_⟩
    have dots : '/' :: (['.', '.'] ++ ['/']) <:+: _ :=
      infix_collapseSlashes (by decide) (by decide) directory.toList rest
    simpa [← same] using dots

/-- A relative specifier without the extension of its file is not spelled canonically. -/
theorem not_canonical_of_isRelative (lawful : fs.Lawful) (names : x.Names fs c)
    (relative : isRelative x.specifier = true) (missing : fs.canonical (x.formed fs) = none) :
    ¬x.Canonical fs := by
  have formed : x.formed fs = fromDir fs x.fromPath ++ "/" ++ x.specifier := by
    simp [Spelling.formed, not_isAbsolute_of_isRelative relative]
  obtain ⟨dots, kind, within⟩ := dotted_of_isRelative relative (fromDir fs x.fromPath)
  have textual : (normalizePath fs (x.formed fs)).toList =
      collapseSlashes (fromDir fs x.fromPath ++ "/" ++ x.specifier).toList := by
    rw [normalizePath, missing, formed, String.toList_ofList]
  rintro (there | ⟨completed, found, canonical⟩)
  · have located := locate_of_names lawful names
    obtain ⟨_, _, canonical⟩ := names
    rw [locate_eq, if_pos there] at located
    rw [← Option.some.inj located, normalizePath, missing] at canonical
    simp only [lawful.slashes, missing] at canonical
    cases canonical
  · have undotted := lawful.undotted completed completed canonical
    rw [← textual] at within
    have there := within.trans (prefix_completion found).isInfix
    rcases kind with rfl | rfl
    · exact undotted.1 there
    · exact undotted.2 there

end Identity

section Neighbours

theorem lawful_ofSpellings {spellings : List (String × String × FileKind)}
    (self : ∀ spelling ∈ spellings, spellings.lookup
      (String.ofList (collapseSlashes spelling.2.1.toList)) = some spelling.2)
    (absolute : ∀ spelling ∈ spellings, isAbsolute spelling.2.1 = true)
    (undotted : ∀ spelling ∈ spellings, ¬['/', '.', '/'] <:+: spelling.2.1.toList ∧
      ¬['/', '.', '.', '/'] <:+: spelling.2.1.toList)
    (empty : spellings.lookup "" = none) : (FileSystem.ofSpellings spellings).Lawful := by
  have found (path c : String)
      (canonical : (FileSystem.ofSpellings spellings).canonical path = some c) :
      ∃ spelling ∈ spellings, spelling.2.1 = c ∧ spellings.lookup
        (String.ofList (collapseSlashes path.toList)) = some spelling.2 := by
    obtain ⟨entry, stored, same⟩ := Option.map_eq_some_iff.mp canonical
    obtain ⟨before, after, whole, _⟩ := List.lookup_eq_some_iff.mp stored
    exact ⟨(String.ofList (collapseSlashes path.toList), entry), by simp [whole], same, stored⟩
  refine ⟨?_, ?_, ?_, ?_, ?_, ?_⟩
  · intro path c canonical
    obtain ⟨spelling, member, rfl, _⟩ := found path c canonical
    exact congrArg (Option.map Prod.fst) (self spelling member)
  · intro path c canonical
    obtain ⟨spelling, member, rfl, _⟩ := found path c canonical
    exact absolute spelling member
  · intro path c canonical
    obtain ⟨spelling, member, rfl, _⟩ := found path c canonical
    exact undotted spelling member
  · intro path c canonical
    obtain ⟨spelling, member, rfl, stored⟩ := found path c canonical
    exact congrArg (Option.map Prod.snd) ((self spelling member).trans stored.symm)
  · intro path
    simp [FileSystem.ofSpellings, collapseSlashes_idem]
  · exact congrArg (Option.map Prod.snd) empty

/-- A main script and a module next to it. -/
def neighbours : FileSystem := .ofSpellings
  [("/app", "/app", .directory), ("/app/main.js", "/app/main.js", .regular),
    ("/app/a.js", "/app/a.js", .regular), ("/app/./a.js", "/app/a.js", .regular)]

theorem lawful_neighbours : neighbours.Lawful :=
  lawful_ofSpellings (by decide) (by decide) (by decide) (by decide)

/-- The module by its name and by its canonical path. -/
def byName : Spelling := ⟨"./a.js", "/app/main.js"⟩

def byPath : Spelling := ⟨"/app/a.js", "/app/main.js"⟩

theorem filePaths_agree_iff_inFull : byName.Names neighbours "/app/a.js" ∧
    byPath.Names neighbours "/app/a.js" ∧
    byName.filePath neighbours = byPath.filePath neighbours := by
  have named : byName.Names neighbours "/app/a.js" := ⟨.inr (by decide), by decide, by decide⟩
  have also : byPath.Names neighbours "/app/a.js" := ⟨.inl (by decide), by decide, by decide⟩
  refine ⟨named, also, ?_⟩
  refine (filePaths_agree_iff lawful_neighbours {byName, byPath} ?_).mpr ?_ byName (.inl rfl)
    byPath (.inr rfl) "/app/a.js" named also
  · rintro x (rfl | rfl) c ⟨_, _, canonical⟩
    · cases named.2.2.symm.trans canonical
      exact ⟨"/app/main.js", .inr rfl⟩
    · cases also.2.2.symm.trans canonical
      exact ⟨"/app/main.js", .inr rfl⟩
  · rintro x (rfl | rfl) c _
    · exact .inl (by decide)
    · exact .inl (by decide)

/-- With and without its extension a module has two paths, and the loader evaluates it twice. -/
theorem evaluated_twice :
    byName.Names neighbours "/app/a.js" ∧
    (⟨"./a", "/app/main.js"⟩ : Spelling).Names neighbours "/app/a.js" ∧
    byName.filePath neighbours ≠ (⟨"./a", "/app/main.js"⟩ : Spelling).filePath neighbours ∧
    ∃ s, (CommonJSLoader.loader (.ofFiles neighbours fun _ => .ok [])
        (some "/app/main.js")).Run { globalFilename := some "/app/main.js" }
        [.require (some "./a.js"), .run, .require (some "./a"), .run] s ∧
      s.ended = [("/app/./a.js", true), ("/app/a.js", true)] := by
  refine ⟨⟨.inr (by decide), by decide, by decide⟩, ⟨.inr (by decide), by decide, by decide⟩,
    by decide, ?_⟩
  exact (CommonJSLoader.loader (.ofFiles neighbours fun _ => .ok [])
    (some "/app/main.js")).exists_run_of_replay _ _ _ (by decide)

end Neighbours

end ModuleResolver

end ProtoJS.Modules

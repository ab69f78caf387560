import ProtoJS.Npm.PackageInstaller

/-! # Runs of the installer with fixed outcomes

Where resolving, downloading and extracting each package has one outcome, whatever the state, the
result of a whole run and the extractions in it can be computed. The sequential and the parallel
path do the same work; they differ in what they make of packages that have no version.
-/

namespace ProtoJS.Npm

open Strings Effects

/-- An extraction, and whether it succeeded. -/
structure Extraction where
  tarballPath : Text
  targetDir : Text
  succeeded : Bool
deriving DecidableEq, Repr

/-- The world with a log of the extractions. -/
def World.loggingExtractions {σ : Type} (w : World σ) : World (σ × List Extraction) where
  fetchPackage := w.fetchPackage
  pathExists path := lift (w.pathExists path)
  createDirectories path := lift (w.createDirectories path)
  removeAll path := lift (w.removeAll path)
  httpDownload url targetPath := lift (w.httpDownload url targetPath)
  system tarballPath targetDir := do
    let status ← lift (w.system tarballPath targetDir)
    record ⟨tarballPath, targetDir, status = 0⟩
    return status
  readFile path := lift (w.readFile path)

namespace PackageInstaller

open NPMRegistry

/-- The outcomes for each package. An empty version says that the range was not resolved. -/
structure Outcomes where
  resolved : Text → Text
  downloads : Text → Bool
  extracts : Text → Bool

namespace Outcomes

variable (o : Outcomes) (installDir packageName : Text)

/-- The package is installed. -/
def Installs : Prop :=
  o.resolved packageName ≠ [] ∧ o.downloads packageName = true ∧ o.extracts packageName = true

instance : Decidable (o.Installs packageName) := by
  unfold Installs
  infer_instance

/-- Its extraction, which is not reached without a version and a tarball. -/
def extractions : List Extraction :=
  if o.resolved packageName ≠ [] ∧ o.downloads packageName = true then
    [⟨tarballPath (tempDir installDir packageName) packageName (o.resolved packageName),
      packageDir installDir packageName, o.extracts packageName⟩]
  else []

end Outcomes

variable {σ : Type} {w : World σ} {options : InstallOptions} {packages : List (Text × Text)}
  {o : Outcomes}

/-- The outcomes do not depend on the state, and the directories of the packages can be created and
removed. -/
structure Fixed (w : World σ) (options : InstallOptions) (packages : List (Text × Text))
    (o : Outcomes) : Prop where
  resolves : ∀ pair ∈ packages, resolveVersion w.fetchPackage pair.1 pair.2 options.registry =
    .ok (o.resolved pair.1)
  creates : ∀ pair ∈ packages, Always (w.createDirectories (packageDir options.installDir pair.1))
    .unit ∧ Always (w.createDirectories (tempDir options.installDir pair.1)) .unit
  removes : ∀ pair ∈ packages, Always (w.removeAll (tempDir options.installDir pair.1)) .unit
  downloads : ∀ pair ∈ packages, o.resolved pair.1 ≠ [] →
    Always (downloadPackage w pair.1 (o.resolved pair.1) (tempDir options.installDir pair.1)
      options.registry) (o.downloads pair.1)
  extracts : ∀ pair ∈ packages, o.resolved pair.1 ≠ [] →
    Always (extractTarball w
      (tarballPath (tempDir options.installDir pair.1) pair.1 (o.resolved pair.1))
      (packageDir options.installDir pair.1)) (o.extracts pair.1)

section Steps

/-- A download logs nothing. -/
theorem downloadPackage_logging (w : World σ) (packageName version targetDir registry : Text) :
    downloadPackage w.loggingExtractions packageName version targetDir registry =
      lift (downloadPackage w packageName version targetDir registry) := by
  rw [downloadPackage_eq, downloadPackage_eq]
  simp only [World.loggingExtractions]
  cases tarballOf (w.fetchPackage packageName registry) version with
  | none => rfl
  | some url =>
    funext s
    simp only [bind, EStateM.bind, lift]
    cases w.createDirectories targetDir s.1 with
    | ok x s' => rfl
    | error e s' => rfl

theorem extractTarball_logging {tarballPath targetDir : Text} {extracts : Bool}
    (always : Always (extractTarball w tarballPath targetDir) extracts) :
    Returns (extractTarball w.loggingExtractions tarballPath targetDir) extracts
      [⟨tarballPath, targetDir, extracts⟩] := by
  intro s
  obtain ⟨s', ran⟩ := always s.1
  simp only [extractTarball, World.loggingExtractions, bind, EStateM.bind, pure, EStateM.pure,
    lift, record] at ran ⊢
  cases exit : w.system tarballPath targetDir s.1 with
  | error e s'' =>
    rw [exit] at ran
    cases ran
  | ok status s'' =>
    rw [exit] at ran
    cases ran
    exact ⟨s', rfl⟩

theorem resolve_logging (fixed : Fixed w options packages o) {pair : Text × Text}
    (member : pair ∈ packages) :
    Returns (resolve w.loggingExtractions pair.1 pair.2 options.registry) (o.resolved pair.1)
      [] := by
  have resolved : resolve w.loggingExtractions pair.1 pair.2 options.registry =
      pure (o.resolved pair.1) := by
    simp only [resolve, World.loggingExtractions, fixed.resolves pair member]
  rw [resolved]
  exact Returns.pure _

theorem finishPackage_logging (fixed : Fixed w options packages o) {pair : Text × Text}
    (member : pair ∈ packages) (present : o.resolved pair.1 ≠ []) (downloaded : Bool) :
    Returns (finishPackage w.loggingExtractions options.installDir pair.1 (o.resolved pair.1)
        downloaded) (downloaded && o.extracts pair.1)
      (if downloaded then
        [⟨tarballPath (tempDir options.installDir pair.1) pair.1 (o.resolved pair.1),
          packageDir options.installDir pair.1, o.extracts pair.1⟩]
      else []) := by
  have removed : Returns
      (w.loggingExtractions.removeAll (tempDir options.installDir pair.1)) .unit [] :=
    Returns.lift (fixed.removes pair member)
  cases downloaded with
  | false => exact removed.silently (Returns.pure false)
  | true =>
    have extracted := extractTarball_logging (fixed.extracts pair member present)
    exact extracted.bind (removed.silently (Returns.pure (o.extracts pair.1)))

theorem installPackage_logging (fixed : Fixed w options packages o) {pair : Text × Text}
    (member : pair ∈ packages) :
    Returns (installPackage w.loggingExtractions pair.1 pair.2 options)
      (decide (o.Installs pair.1)) (o.extractions options.installDir pair.1) := by
  obtain ⟨createsDir, createsTemp⟩ := fixed.creates pair member
  refine (resolve_logging fixed member).silently ?_
  by_cases present : o.resolved pair.1 = []
  · simp only [present, if_true, Outcomes.Installs, Outcomes.extractions, ne_eq,
      not_true_eq_false, false_and, decide_false, if_false]
    exact Returns.pure false
  · have downloaded : Returns (downloadPackage w.loggingExtractions pair.1 (o.resolved pair.1)
        (tempDir options.installDir pair.1) options.registry) (o.downloads pair.1) [] := by
      rw [downloadPackage_logging]
      exact Returns.lift (fixed.downloads pair member present)
    have value : decide (o.Installs pair.1) = (o.downloads pair.1 && o.extracts pair.1) := by
      simp [Outcomes.Installs, present, Bool.decide_and]
    rw [value, Outcomes.extractions]
    simp only [present, if_false, ne_eq, not_false_eq_true, true_and]
    refine (Returns.lift createsDir).silently ?_
    refine (Returns.lift createsTemp).silently ?_
    refine downloaded.silently ?_
    exact finishPackage_logging fixed member present (o.downloads pair.1)

end Steps

section Loops

theorem foldl_success {ι : Type} (ok : ι → Bool) (l : List ι) (start : Bool) :
    l.foldl (fun success i => if !ok i then false else success) start =
      (start && l.all ok) := by
  induction l generalizing start with
  | nil => simp
  | cons i l ih =>
    rw [List.foldl_cons, ih, List.all_cons]
    cases ok i <;> simp

/-- The sequential path. -/
theorem installEach_logging (fixed : Fixed w options packages o) :
    Returns (installEach w.loggingExtractions options packages)
      (packages.all fun pair => decide (o.Installs pair.1))
      (packages.flatMap fun pair => o.extractions options.installDir pair.1) := by
  have turn : ∀ pair ∈ packages, ∀ success, Returns
      (do
        let installed ← installPackage w.loggingExtractions pair.1 pair.2 options
        return if !installed then false else success)
      (if !decide (o.Installs pair.1) then false else success)
      (o.extractions options.installDir pair.1) := by
    intro pair member success
    rw [← List.append_nil (o.extractions _ _)]
    refine (installPackage_logging fixed member).bind ?_
    exact Returns.pure (if !decide (o.Installs pair.1) then false else success)
  have ran := Returns.foldlM turn true
  rw [foldl_success, Bool.true_and] at ran
  exact ran

theorem foldl_concat {ι α : Type} (f : ι → α) (l : List ι) (start : List α) :
    l.foldl (fun acc i => acc ++ [f i]) start = start ++ l.map f := by
  induction l generalizing start with
  | nil => simp
  | cons i l ih => simp [ih]

theorem foldl_collect {ι α : Type} (skips : ι → Prop) [DecidablePred skips] (f : ι → α)
    (l : List ι) (start : List α) :
    l.foldl (fun acc i => if skips i then acc else acc ++ [f i]) start =
      start ++ (l.filter fun i => !decide (skips i)).map f := by
  induction l generalizing start with
  | nil => simp
  | cons i l ih =>
    rw [List.foldl_cons, ih, List.filter_cons]
    by_cases skip : skips i <;> simp [skip]

/-- The batches are the specs, in their order. -/
theorem flatten_batches {α : Type} {size fuel : ℕ} (positive : 0 < size) {specs : List α}
    (enough : specs.length ≤ fuel) : (batches size fuel specs).flatten = specs := by
  induction fuel generalizing specs with
  | zero => simp [List.length_eq_zero_iff.mp (Nat.le_zero.mp enough), batches]
  | succ fuel ih =>
    rw [batches]
    split
    · rename_i empty
      simp [empty]
    · rename_i present
      have shorter : (specs.drop size).length ≤ fuel := by
        have length := List.length_pos_iff.mpr present
        rw [List.length_drop]
        omega
      rw [List.flatten_cons, ih shorter, List.take_append_drop]

variable {registry : Text} {downloads : DownloadSpec → Bool} {specs batch : List DownloadSpec}

theorem flatten_results (downloads : DownloadSpec → Bool) (batch : List DownloadSpec) :
    ((batch.map fun s => (Except.ok (downloads s) : Except Failure Bool)).map fun outcome =>
      outcome.toOption.toList).flatten = batch.map downloads := by
  induction batch with
  | nil => rfl
  | cons s batch ih =>
    rw [List.map_cons, List.map_cons, List.flatten_cons, ih]
    rfl

variable {E : Type} {v : World (σ × List E)} {events : DownloadSpec → List E}

theorem downloadBatch_returns
    (returns : ∀ s ∈ batch, Returns
      (downloadPackage v s.packageName s.version s.targetDir registry) (downloads s) (events s))
    (results : List Bool) :
    Returns (downloadBatch v registry results batch) (results ++ batch.map downloads)
      (batch.flatMap events) := by
  have started : ∀ s ∈ batch, ∀ outcomes, Returns (startDownload v registry outcomes s)
      (outcomes ++ [Except.ok (downloads s)]) (events s) := by
    intro s member outcomes
    rw [← List.append_nil (events s)]
    refine (returns s member).attempt.bind ?_
    exact Returns.pure (outcomes ++ [Except.ok (downloads s)])
  have gathered := Returns.foldlM started []
  rw [foldl_concat, List.nil_append] at gathered
  have got : ∀ outcome ∈ batch.map fun s => Except.ok (downloads s), ∀ results,
      Returns (getResult results outcome : EStateM Failure (σ × List E) (List Bool))
        (results ++ outcome.toOption.toList) [] := by
    intro outcome member results
    obtain ⟨s, _, rfl⟩ := List.mem_map.mp member
    exact Returns.pure (results ++ [downloads s])
  have ran := Returns.foldlM_silently got results
  rw [List.foldl_append_eq_append, flatten_results] at ran
  rw [← List.append_nil (batch.flatMap events)]
  exact gathered.bind ran

/-- The downloads of all batches, one after another. -/
theorem downloadPackages_returns
    (returns : ∀ s ∈ specs, Returns
      (downloadPackage v s.packageName s.version s.targetDir registry) (downloads s) (events s))
    (maxConcurrency : ℕ) :
    Returns (downloadPackages v specs registry maxConcurrency) (specs.map downloads)
      (specs.flatMap events) := by
  rw [downloadPackages]
  have positive : 0 < if maxConcurrency = 0 then 1 else maxConcurrency := by
    split <;> omega
  generalize (if maxConcurrency = 0 then 1 else maxConcurrency) = size at positive ⊢
  have whole := flatten_batches positive specs.length.le_refl
  have turn : ∀ batch ∈ batches size specs.length specs, ∀ results,
      Returns (downloadBatch v registry results batch) (results ++ batch.map downloads)
        (batch.flatMap events) := by
    intro batch member
    apply downloadBatch_returns
    intro s inside
    exact returns s (whole ▸ List.mem_flatten_of_mem member inside)
  have ran := Returns.foldlM turn []
  have recorded : (batches size specs.length specs).flatMap (List.flatMap events) =
      specs.flatMap events := by
    conv_rhs => rw [← whole, ← List.flatMap_id, List.flatMap_assoc]
    rfl
  rwa [List.foldl_append_eq_append, List.nil_append, ← List.map_flatten, whole, recorded] at ran

theorem downloadPackages_logging
    (always : ∀ s ∈ specs, Always
      (downloadPackage w s.packageName s.version s.targetDir registry) (downloads s))
    (maxConcurrency : ℕ) :
    Returns (downloadPackages w.loggingExtractions specs registry maxConcurrency)
      (specs.map downloads) [] := by
  have silent : ∀ s ∈ specs, Returns (downloadPackage w.loggingExtractions s.packageName s.version
      s.targetDir registry) (downloads s) [] := by
    intro s member
    rw [downloadPackage_logging]
    exact Returns.lift (always s member)
  have ran := downloadPackages_returns silent maxConcurrency
  rwa [List.flatMap_eq_nil_iff.mpr fun _ _ => rfl] at ran

end Loops

section Parallel

/-- The packages that have a version. -/
def Outcomes.found (o : Outcomes) (packages : List (Text × Text)) : List (Text × Text) :=
  packages.filter fun pair => !decide (o.resolved pair.1 = [])

def Outcomes.spec (o : Outcomes) (options : InstallOptions) (pair : Text × Text) : DownloadSpec :=
  ⟨pair.1, o.resolved pair.1, tempDir options.installDir pair.1⟩

theorem Outcomes.mem_found {pair : Text × Text} :
    pair ∈ o.found packages ↔ pair ∈ packages ∧ o.resolved pair.1 ≠ [] := by
  simp [Outcomes.found]

theorem resolveAll_logging (fixed : Fixed w options packages o) :
    Returns (resolveAll w.loggingExtractions options packages)
      ((o.found packages).map (o.spec options)) [] := by
  have turn : ∀ pair ∈ packages, ∀ specs, Returns (addSpec w.loggingExtractions options specs pair)
      (if o.resolved pair.1 = [] then specs else specs ++ [o.spec options pair]) [] := by
    intro pair member specs
    obtain ⟨createsDir, createsTemp⟩ := fixed.creates pair member
    refine (resolve_logging fixed member).silently ?_
    by_cases absent : o.resolved pair.1 = []
    · rw [if_pos absent, if_pos absent]
      exact Returns.pure specs
    · rw [if_neg absent, if_neg absent]
      refine (Returns.lift createsDir).silently ?_
      refine (Returns.lift createsTemp).silently ?_
      exact Returns.pure (specs ++ [o.spec options pair])
  have ran := Returns.foldlM_silently turn []
  rwa [foldl_collect (fun pair : Text × Text => o.resolved pair.1 = []), List.nil_append] at ran

theorem finishAll_logging (fixed : Fixed w options packages o) :
    Returns (finishAll w.loggingExtractions options
        ((o.found packages).map fun pair => (o.spec options pair, o.downloads pair.1)))
      ((o.found packages).all fun pair => o.downloads pair.1 && o.extracts pair.1)
      ((o.found packages).flatMap fun pair => o.extractions options.installDir pair.1) := by
  rw [finishAll, List.foldlM_map]
  have turn : ∀ pair ∈ o.found packages, ∀ success, Returns
      (do
        let installed ← finishPackage w.loggingExtractions options.installDir
          (o.spec options pair).packageName (o.spec options pair).version (o.downloads pair.1)
        return if !installed then false else success)
      (if !(o.downloads pair.1 && o.extracts pair.1) then false else success)
      (o.extractions options.installDir pair.1) := by
    intro pair member success
    obtain ⟨inside, present⟩ := Outcomes.mem_found.mp member
    rw [← List.append_nil (o.extractions _ _)]
    have finished := finishPackage_logging fixed inside present (o.downloads pair.1)
    simp only [Outcomes.extractions, present, ne_eq, not_false_eq_true, true_and]
    refine finished.bind ?_
    exact Returns.pure (if !(o.downloads pair.1 && o.extracts pair.1) then false else success)
  have ran := Returns.foldlM turn true
  rwa [foldl_success, Bool.true_and] at ran

theorem flatMap_found (options : InstallOptions) :
    ((o.found packages).flatMap fun pair => o.extractions options.installDir pair.1) =
      packages.flatMap fun pair => o.extractions options.installDir pair.1 := by
  induction packages with
  | nil => rfl
  | cons pair packages ih =>
    rw [List.flatMap_cons, ← ih, Outcomes.found, List.filter_cons]
    by_cases absent : o.resolved pair.1 = []
    · simp [absent, Outcomes.extractions, Outcomes.found]
    · simp [absent, Outcomes.found]

/-- The parallel path. -/
theorem installPackages_parallel (fixed : Fixed w options packages o)
    (parallel : 1 ≤ options.parallelDownloads) (nonempty : packages ≠ []) :
    Returns (installPackages w.loggingExtractions packages options)
      (!(o.found packages).isEmpty &&
        (o.found packages).all fun pair => o.downloads pair.1 && o.extracts pair.1)
      (packages.flatMap fun pair => o.extractions options.installDir pair.1) := by
  rw [installPackages, if_neg nonempty, if_neg (by omega), ← flatMap_found]
  refine (resolveAll_logging fixed).silently ?_
  by_cases none : o.found packages = []
  · simp only [none, List.map_nil, if_true, List.isEmpty_nil, Bool.not_true, Bool.false_and,
      List.flatMap_nil]
    exact Returns.pure false
  · have specs : (o.found packages).map (o.spec options) ≠ [] := by simpa using none
    rw [if_neg specs]
    have always : ∀ s ∈ (o.found packages).map (o.spec options), Always
        (downloadPackage w s.packageName s.version s.targetDir options.registry)
        (o.downloads s.packageName) := by
      intro s member
      obtain ⟨pair, inside, rfl⟩ := List.mem_map.mp member
      obtain ⟨listed, present⟩ := Outcomes.mem_found.mp inside
      exact fixed.downloads pair listed present
    refine (downloadPackages_logging always _).silently ?_
    have zipped : ((o.found packages).map (o.spec options)).zip
        (((o.found packages).map (o.spec options)).map fun s => o.downloads s.packageName) =
        (o.found packages).map fun pair => (o.spec options pair, o.downloads pair.1) := by
      rw [List.map_map, List.zip_map', Function.comp_def]
      rfl
    rw [zipped]
    have finished := finishAll_logging fixed
    have remains : (o.found packages).isEmpty = false := by simpa using none
    rwa [remains, Bool.not_false, Bool.true_and]

/-- The sequential path. -/
theorem installPackages_sequential (fixed : Fixed w options packages o)
    (sequential : options.parallelDownloads = 0) :
    Returns (installPackages w.loggingExtractions packages options)
      (packages.all fun pair => decide (o.Installs pair.1))
      (packages.flatMap fun pair => o.extractions options.installDir pair.1) := by
  rw [installPackages]
  split
  · rename_i empty
    subst empty
    exact Returns.pure true
  · exact installEach_logging fixed

end Parallel

section Agreement

/-- The package was extracted. -/
def Installed (installDir : Text) (log : List Extraction) (packageName : Text) : Prop :=
  ∃ tarballPath, ⟨tarballPath, packageDir installDir packageName, true⟩ ∈ log

theorem packageDir_injective (installDir : Text) : Function.Injective (packageDir installDir) := by
  intro a b same
  simpa [packageDir] using same

theorem installed_iff (installDir packageName : Text) :
    Installed installDir (packages.flatMap fun pair => o.extractions installDir pair.1) packageName ↔
      (∃ range, (packageName, range) ∈ packages) ∧ o.Installs packageName := by
  simp only [Installed, List.mem_flatMap]
  constructor
  · rintro ⟨tarball, ⟨name, range⟩, member, extracted⟩
    rw [Outcomes.extractions] at extracted
    split at extracted
    · rename_i reached
      rw [List.mem_singleton] at extracted
      injection extracted with _ dir succeeded
      cases packageDir_injective installDir dir
      exact ⟨⟨range, member⟩, reached.1, reached.2, succeeded.symm⟩
    · cases extracted
  · rintro ⟨⟨range, member⟩, present, downloads, extracts⟩
    refine ⟨tarballPath (tempDir installDir packageName) packageName (o.resolved packageName),
      (packageName, range), member, ?_⟩
    rw [Outcomes.extractions, if_pos ⟨present, downloads⟩, extracts]
    exact List.mem_singleton.mpr rfl

/-- Both paths return the same, extract the same packages, and return true exactly if every package
was installed. -/
def Agree (w : World σ) (options : InstallOptions) (packages : List (Text × Text)) (parallel : ℕ)
    (s : σ) : Prop :=
  ∃ success s₁ s₂ log₁ log₂,
    installPackages w.loggingExtractions packages { options with parallelDownloads := 0 } (s, []) =
      .ok success (s₁, log₁) ∧
    installPackages w.loggingExtractions packages { options with parallelDownloads := parallel }
      (s, []) = .ok success (s₂, log₂) ∧
    (∀ packageName, Installed options.installDir log₁ packageName ↔
      Installed options.installDir log₂ packageName) ∧
    (success = true ↔ ∀ pair ∈ packages, Installed options.installDir log₁ pair.1)

/-- What both paths return. -/
theorem agree_iff_success (fixed : Fixed w options packages o) {parallel : ℕ}
    (positive : 1 ≤ parallel) (nonempty : packages ≠ []) (s : σ) :
    Agree w options packages parallel s ↔
      (packages.all fun pair => decide (o.Installs pair.1)) =
        (!(o.found packages).isEmpty &&
          (o.found packages).all fun pair => o.downloads pair.1 && o.extracts pair.1) := by
  have fixedFor : ∀ count, Fixed w { options with parallelDownloads := count } packages o :=
    fun _ => ⟨fixed.resolves, fixed.creates, fixed.removes, fixed.downloads, fixed.extracts⟩
  have sequential := installPackages_sequential (fixedFor 0) rfl
  have parallel := installPackages_parallel (fixedFor parallel) positive nonempty
  obtain ⟨s₁, ran₁⟩ := sequential (s, [])
  obtain ⟨s₂, ran₂⟩ := parallel (s, [])
  simp only [List.nil_append] at ran₁ ran₂
  constructor
  · rintro ⟨success, s₁', s₂', log₁, log₂, same₁, same₂, _⟩
    rw [ran₁] at same₁
    rw [ran₂] at same₂
    cases same₁
    injection same₂ with same₂
    exact same₂.symm
  · intro same
    refine ⟨_, s₁, s₂, _, _, ran₁, same ▸ ran₂, fun _ => Iff.rfl, ?_⟩
    rw [List.all_eq_true]
    simp only [decide_eq_true_eq, installed_iff]
    constructor
    · rintro all ⟨name, range⟩ member
      exact ⟨⟨range, member⟩, all _ member⟩
    · intro all pair member
      exact (all pair member).2

/-- The two paths agree exactly if every package has a version, or none has, or one that has a
version fails later. -/
theorem agree_iff (fixed : Fixed w options packages o) {parallel : ℕ} (positive : 1 ≤ parallel)
    (s : σ) : Agree w options packages parallel s ↔
      (∀ pair ∈ packages, o.resolved pair.1 ≠ []) ∨ (∀ pair ∈ packages, o.resolved pair.1 = []) ∨
        ∃ pair ∈ packages, o.resolved pair.1 ≠ [] ∧
          ¬(o.downloads pair.1 = true ∧ o.extracts pair.1 = true) := by
  by_cases empty : packages = []
  · subst empty
    refine iff_of_true ?_ (by simp)
    exact ⟨true, s, s, [], [], rfl, rfl, fun _ => Iff.rfl, by simp⟩
  rw [agree_iff_success fixed positive empty, Bool.eq_iff_iff]
  have sequential : (packages.all fun pair => decide (o.Installs pair.1)) = true ↔
      ∀ pair ∈ packages, o.Installs pair.1 := by simp
  have parallel : (!(o.found packages).isEmpty &&
        (o.found packages).all fun pair => o.downloads pair.1 && o.extracts pair.1) = true ↔
      (∃ pair ∈ packages, o.resolved pair.1 ≠ []) ∧ ∀ pair ∈ packages, o.resolved pair.1 ≠ [] →
        o.downloads pair.1 = true ∧ o.extracts pair.1 = true := by
    simp only [Bool.and_eq_true, Bool.not_eq_true', List.isEmpty_eq_false_iff_exists_mem,
      List.all_eq_true, Outcomes.mem_found, and_imp]
  rw [sequential, parallel]
  obtain ⟨first, member⟩ := List.exists_mem_of_ne_nil packages empty
  constructor
  · intro agree
    by_cases failed : ∃ pair ∈ packages, o.resolved pair.1 ≠ [] ∧
        ¬(o.downloads pair.1 = true ∧ o.extracts pair.1 = true)
    · exact .inr (.inr failed)
    · push Not at failed
      by_cases none : ∀ pair ∈ packages, o.resolved pair.1 = []
      · exact .inr (.inl none)
      · push Not at none
        have all := agree.mpr ⟨none, failed⟩
        exact .inl fun pair inside => (all pair inside).1
  · rintro (found | none | ⟨pair, inside, present, fails⟩)
    · constructor
      · intro all
        exact ⟨⟨first, member, found first member⟩, fun pair inside _ => (all pair inside).2⟩
      · rintro ⟨_, all⟩ pair inside
        exact ⟨found pair inside, all pair inside (found pair inside)⟩
    · refine iff_of_false (fun all => (all first member).1 (none first member)) ?_
      rintro ⟨⟨pair, inside, present⟩, _⟩
      exact present (none pair inside)
    · refine iff_of_false (fun all => fails (all pair inside).2) ?_
      rintro ⟨_, all⟩
      exact fails (all pair inside present)

/-- A world in which everything succeeds that the registry allows. -/
def ready (fetchPackage : Text → Text → PackageMetadata PackageVersion) : World Unit where
  fetchPackage := fetchPackage
  pathExists _ := pure true
  createDirectories _ := pure .unit
  removeAll _ := pure .unit
  httpDownload _ _ := pure true
  system _ _ := pure 0
  readFile _ := pure none

def versionsA (packageName : Text) : List (Text × PackageVersion) :=
  if packageName = ['a'] then
    [("1.0.0".toList, { version := "1.0.0".toList, distTarball := "http://npm/a.tgz".toList })]
  else []

theorem sorted_versionsA (packageName : Text) :
    ((versionsA packageName).map Prod.fst).Pairwise (· < ·) := by
  rw [versionsA]
  split
  · exact List.pairwise_singleton ..
  · exact List.Pairwise.nil

/-- One package, with one version. -/
def onlyA (packageName _registry : Text) : PackageMetadata PackageVersion where
  versions := versionsA packageName
  latest := []
  sorted := sorted_versionsA packageName

def outcomesA : Outcomes where
  resolved packageName := if packageName = ['a'] then "1.0.0".toList else []
  downloads _ := true
  extracts _ := true

theorem fixed_onlyA {packages : List (Text × Text)}
    (latest : ∀ pair ∈ packages, pair = (['a'], "latest".toList) ∨ pair = (['b'], "latest".toList)) :
    Fixed (ready onlyA) {} packages outcomesA where
  resolves pair member := by
    rcases latest pair member with rfl | rfl
    · decide
    · decide
  creates _ _ := ⟨fun _ => ⟨_, rfl⟩, fun _ => ⟨_, rfl⟩⟩
  removes _ _ _ := ⟨_, rfl⟩
  downloads pair member present s := by
    rcases latest pair member with rfl | rfl
    · exact ⟨(), rfl⟩
    · exact absurd rfl present
  extracts _ _ _ _ := ⟨_, rfl⟩

theorem agree_iff_one : Agree (ready onlyA) {} [(['a'], "latest".toList)] 4 () :=
  (agree_iff (fixed_onlyA (by simp)) (by decide) ()).mpr (.inl (by decide))

/-- A package without a version is skipped on the parallel path. -/
theorem not_agree_skipped : ¬Agree (ready onlyA) {}
    [(['a'], "latest".toList), (['b'], "latest".toList)] 4 () := by
  rw [agree_iff_success (fixed_onlyA (by simp)) (by decide) (by simp)]
  decide

end Agreement

end PackageInstaller

end ProtoJS.Npm

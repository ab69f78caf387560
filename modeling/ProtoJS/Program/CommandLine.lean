import ProtoJS.Strings.Extraction

/-! # The command line

`main` takes its arguments one by one, opens every file that is named and stops at the first
argument that it does not understand. A command line is a sequence of items: options with their
values, flags and the names of scripts. What is set is what the last item of each kind says, so the
code that is run may come from one item and the name it is run under from another.
-/

namespace ProtoJS.Program

open Strings

variable {F : Type}

/-- What `main` takes from outside; `F` are the floating-point numbers. -/
structure Environment (F : Type) where
  /-- What is read from a file that can be opened. -/
  contents : Text → Option Text
  /-- `none` where `std::stod` throws. -/
  stod : Text → Option F
  /-- `3.0`. -/
  three : F

/-- The variables that are set from the arguments. -/
structure Options (F : Type) where
  cpuThreads : ℕ := 0
  ioThreads : ℕ := 0
  ioFactor : F
  code : Text := []
  filename : Text := "eval".toList
  executeCode : Bool := false
  printResult : Bool := false
  syntaxCheck : Bool := false
  showVersion : Bool := false
  inputTypeModule : Bool := false
deriving DecidableEq

inductive Failure where
  | couldNotOpen (filename : Text)
  | unknownOption (arg : Text)
  /-- A conversion throws, and `main` does not catch. -/
  | terminated
deriving DecidableEq, Repr

/-- `none` where `std::stoul` throws. What follows the digits is not looked at, and a minus sign
takes the number from `2 ^ 64`. -/
def stoul (text : Text) : Option ℕ :=
  let text := text.dropWhile isSpace
  let negative := text.head? = some '-'
  let unsigned := if negative ∨ text.head? = some '+' then text.tail else text
  let digits := unsigned.takeWhile Char.isDigit
  let magnitude := Nat.ofDigitChars 10 digits 0
  if digits = [] ∨ 2 ^ 64 ≤ magnitude then none
  else some (if negative then (2 ^ 64 - magnitude) % 2 ^ 64 else magnitude)

variable (env : Environment F)

/-- The branches of the loop that take one argument. -/
def takeArgument (options : Options F) (arg : Text) : Except Failure (Options F) :=
  if arg = "-p".toList ∨ arg = "--print".toList then .ok { options with printResult := true }
  else if arg = "-c".toList ∨ arg = "--check".toList then
    .ok { options with syntaxCheck := true }
  else if arg = "-v".toList ∨ arg = "--version".toList then
    .ok { options with showVersion := true }
  else if arg = "--input-type=module".toList then
    .ok { options with inputTypeModule := true }
  else if arg.head? ≠ some '-' then
    match env.contents arg with
    | none => .error (.couldNotOpen arg)
    | some code => .ok { options with filename := arg, code }
  else .error (.unknownOption arg)

/-- The loop over the arguments. -/
def parseArguments (options : Options F) : List Text → Except Failure (Options F)
  | [] => .ok options
  | [arg] => takeArgument env options arg
  | arg :: value :: rest =>
    if arg = "--cpu-threads".toList then
      match stoul value with
      | none => .error .terminated
      | some cpuThreads => parseArguments { options with cpuThreads } rest
    else if arg = "--io-threads".toList then
      match stoul value with
      | none => .error .terminated
      | some ioThreads => parseArguments { options with ioThreads } rest
    else if arg = "--io-threads-factor".toList then
      match env.stod value with
      | none => .error .terminated
      | some ioFactor => parseArguments { options with ioFactor } rest
    else if arg = "-e".toList then
      parseArguments { options with executeCode := true, code := value } rest
    else
      match takeArgument env options arg with
      | .error failure => .error failure
      | .ok options => parseArguments options (value :: rest)

/-! ### Items -/

/-- A part of a command line; the flags have a long and a short form. -/
inductive Item where
  | cpuThreads (value : Text)
  | ioThreads (value : Text)
  | ioThreadsFactor (value : Text)
  | execute (code : Text)
  | print (long : Bool)
  | check (long : Bool)
  | version (long : Bool)
  | inputTypeModule
  | script (filename : Text)
deriving DecidableEq, Repr

namespace Item

def words : Item → List Text
  | .cpuThreads value => ["--cpu-threads".toList, value]
  | .ioThreads value => ["--io-threads".toList, value]
  | .ioThreadsFactor value => ["--io-threads-factor".toList, value]
  | .execute code => ["-e".toList, code]
  | .print long => [if long then "--print".toList else "-p".toList]
  | .check long => [if long then "--check".toList else "-c".toList]
  | .version long => [if long then "--version".toList else "-v".toList]
  | .inputTypeModule => ["--input-type=module".toList]
  | .script filename => [filename]

/-- A number can be read, a script can be opened and is not taken for an option. -/
def Valid : Item → Prop
  | .cpuThreads value | .ioThreads value => stoul value ≠ none
  | .ioThreadsFactor value => env.stod value ≠ none
  | .execute _ | .print _ | .check _ | .version _ | .inputTypeModule => True
  | .script filename => filename.head? ≠ some '-' ∧ env.contents filename ≠ none

def givesCpuThreads : Item → Option ℕ
  | .cpuThreads value => stoul value
  | _ => none

def givesIoThreads : Item → Option ℕ
  | .ioThreads value => stoul value
  | _ => none

def givesIoFactor : Item → Option F
  | .ioThreadsFactor value => env.stod value
  | _ => none

def givesCode : Item → Option Text
  | .execute code => some code
  | .script filename => env.contents filename
  | _ => none

def givesFilename : Item → Option Text
  | .script filename => some filename
  | _ => none

def isExecute : Item → Bool
  | .execute _ => true
  | _ => false

def isPrint : Item → Bool
  | .print _ => true
  | _ => false

def isCheck : Item → Bool
  | .check _ => true
  | _ => false

def isVersion : Item → Bool
  | .version _ => true
  | _ => false

end Item

/-- The last of what the items of a command line give. -/
def lastGiven {α : Type} (gives : Item → Option α) (default : α) (items : List Item) : α :=
  (items.filterMap gives).getLast?.getD default

/-- What a command line sets. -/
def meaning (items : List Item) : Options F where
  cpuThreads := lastGiven Item.givesCpuThreads 0 items
  ioThreads := lastGiven Item.givesIoThreads 0 items
  ioFactor := lastGiven (Item.givesIoFactor env) env.three items
  code := lastGiven (Item.givesCode env) [] items
  filename := lastGiven Item.givesFilename "eval".toList items
  executeCode := items.any Item.isExecute
  printResult := items.any Item.isPrint
  syntaxCheck := items.any Item.isCheck
  showVersion := items.any Item.isVersion
  inputTypeModule := items.any (· = .inputTypeModule)

/-- The options that are followed by a value. -/
def valueOptions : List Text :=
  ["--cpu-threads".toList, "--io-threads".toList, "--io-threads-factor".toList, "-e".toList]

def flags : List Text :=
  ["-p".toList, "--print".toList, "-c".toList, "--check".toList, "-v".toList,
    "--version".toList, "--input-type=module".toList]

/-- What the rest of a command line fails with at its first argument. An option that is followed by
a value is unknown where nothing follows it. -/
inductive Fails : Failure → List Text → Prop
  | number {word value : Text} (rest : List Text) :
      word = "--cpu-threads".toList ∨ word = "--io-threads".toList → stoul value = none →
        Fails .terminated (word :: value :: rest)
  | factor {value : Text} (rest : List Text) : env.stod value = none →
      Fails .terminated ("--io-threads-factor".toList :: value :: rest)
  | script {filename : Text} (rest : List Text) : filename.head? ≠ some '-' →
      env.contents filename = none → Fails (.couldNotOpen filename) (filename :: rest)
  | option {arg : Text} (rest : List Text) : arg.head? = some '-' → arg ∉ flags →
      (arg ∈ valueOptions → rest = []) → Fails (.unknownOption arg) (arg :: rest)

/-! ### What the loop reads -/

/-- One item more. -/
def Item.apply (options : Options F) : Item → Options F
  | .cpuThreads value => { options with cpuThreads := (stoul value).getD options.cpuThreads }
  | .ioThreads value => { options with ioThreads := (stoul value).getD options.ioThreads }
  | .ioThreadsFactor value => { options with ioFactor := (env.stod value).getD options.ioFactor }
  | .execute code => { options with executeCode := true, code }
  | .print _ => { options with printResult := true }
  | .check _ => { options with syntaxCheck := true }
  | .version _ => { options with showVersion := true }
  | .inputTypeModule => { options with inputTypeModule := true }
  | .script filename =>
    { options with filename, code := (env.contents filename).getD options.code }

section Reading

variable {env} {options : Options F} {item : Item} {items : List Item} {arg : Text}
variable {args rest : List Text} {failure : Failure}

theorem lastGiven_append {α : Type} (gives : Item → Option α) (default : α) :
    lastGiven gives default (items ++ [item]) =
      (gives item).getD (lastGiven gives default items) := by
  rw [lastGiven, lastGiven, List.filterMap_append]
  cases given : gives item with
  | none => simp [given]
  | some value => simp [given]

theorem meaning_append :
    meaning env (items ++ [item]) = Item.apply env (meaning env items) item := by
  simp only [meaning, lastGiven_append, List.any_append, List.any_cons, List.any_nil,
    Bool.or_false]
  cases item with
  | cpuThreads | ioThreads | ioThreadsFactor | execute | print | check | version
  | inputTypeModule | script =>
    simp [Item.apply, Item.givesCpuThreads, Item.givesIoThreads, Item.givesIoFactor,
      Item.givesCode, Item.givesFilename, Item.isExecute, Item.isPrint, Item.isCheck,
      Item.isVersion]

/-- The options take the items one by one. -/
theorem foldl_apply (items : List Item) :
    items.foldl (Item.apply env) { ioFactor := env.three } = meaning env items := by
  induction items using List.reverseRecOn with
  | nil => rfl
  | append_singleton items item ih =>
    rw [List.foldl_append, ih, meaning_append]
    rfl

theorem ne_of_head {word : Text} (option : word.head? = some '-') (script : arg.head? ≠ some '-') :
    arg ≠ word := by
  rintro rfl
  exact script option

/-- An argument that is not followed by its value. -/
theorem parseArguments_cons (single : arg ∈ valueOptions → rest = []) :
    parseArguments env options (arg :: rest) =
      match takeArgument env options arg with
      | .error failure => .error failure
      | .ok options => parseArguments env options rest := by
  cases rest with
  | nil =>
    rw [parseArguments]
    cases takeArgument env options arg with
    | error failure => rfl
    | ok options => rfl
  | cons value rest =>
    have other : arg ∉ valueOptions := fun member => List.cons_ne_nil _ _ (single member)
    simp only [valueOptions, List.mem_cons, List.not_mem_nil, or_false, not_or] at other
    rw [parseArguments, if_neg other.1, if_neg other.2.1, if_neg other.2.2.1, if_neg other.2.2.2]

theorem takeArgument_script (script : arg.head? ≠ some '-') :
    takeArgument env options arg =
      match env.contents arg with
      | none => .error (.couldNotOpen arg)
      | some code => .ok { options with filename := arg, code } := by
  have other (word : Text) (option : word.head? = some '-') : arg ≠ word :=
    ne_of_head option script
  simp only [takeArgument, other _ (rfl : ("-p".toList).head? = some '-'),
    other _ (rfl : ("--print".toList).head? = some '-'),
    other _ (rfl : ("-c".toList).head? = some '-'),
    other _ (rfl : ("--check".toList).head? = some '-'),
    other _ (rfl : ("-v".toList).head? = some '-'),
    other _ (rfl : ("--version".toList).head? = some '-'),
    other _ (rfl : ("--input-type=module".toList).head? = some '-'), or_self, if_false,
    ne_eq, script, not_false_eq_true, if_true]

theorem not_mem_valueOptions_of_script (script : arg.head? ≠ some '-') : arg ∉ valueOptions := by
  have dashed : ∀ word ∈ valueOptions, word.head? = some '-' := by decide
  exact fun member => script (dashed arg member)

/-- A flag that the loop knows. -/
theorem parseArguments_flag (flag : arg ∈ flags) {options' : Options F}
    (taken : takeArgument env options arg = .ok options') :
    parseArguments env options (arg :: rest) = parseArguments env options' rest := by
  have apart : ∀ word ∈ flags, word ∉ valueOptions := by decide
  rw [parseArguments_cons fun member => absurd member (apart arg flag), taken]

/-- A valid item is read whole. -/
theorem parseArguments_words (valid : item.Valid env) :
    parseArguments env options (item.words ++ rest) =
      parseArguments env (Item.apply env options item) rest := by
  cases item with
  | cpuThreads value =>
    obtain ⟨n, read⟩ := Option.ne_none_iff_exists'.mp valid
    simp [Item.words, parseArguments, Item.apply, read]
  | ioThreads value =>
    obtain ⟨n, read⟩ := Option.ne_none_iff_exists'.mp valid
    simp [Item.words, parseArguments, Item.apply, read]
  | ioThreadsFactor value =>
    obtain ⟨factor, read⟩ := Option.ne_none_iff_exists'.mp valid
    simp [Item.words, parseArguments, Item.apply, read]
  | execute code => simp [Item.words, parseArguments, Item.apply]
  | print long =>
    cases long with
    | false => exact parseArguments_flag (by decide) rfl
    | true => exact parseArguments_flag (by decide) rfl
  | check long =>
    cases long with
    | false => exact parseArguments_flag (by decide) rfl
    | true => exact parseArguments_flag (by decide) rfl
  | version long =>
    cases long with
    | false => exact parseArguments_flag (by decide) rfl
    | true => exact parseArguments_flag (by decide) rfl
  | inputTypeModule => exact parseArguments_flag (by decide) rfl
  | script filename =>
    obtain ⟨script, opens⟩ := valid
    obtain ⟨code, found⟩ := Option.ne_none_iff_exists'.mp opens
    rw [Item.words, List.singleton_append, parseArguments_cons fun member =>
      absurd member (not_mem_valueOptions_of_script script), takeArgument_script script]
    simp [Item.apply, found]

theorem parseArguments_items (valid : ∀ item ∈ items, item.Valid env) :
    parseArguments env options (items.flatMap Item.words ++ rest) =
      parseArguments env (items.foldl (Item.apply env) options) rest := by
  induction items generalizing options with
  | nil => rfl
  | cons item items ih =>
    rw [List.forall_mem_cons] at valid
    rw [List.flatMap_cons, List.append_assoc, parseArguments_words valid.1, ih valid.2]
    rfl

/-- Where a command line fails, so does the loop. -/
theorem parseArguments_of_fails (fails : Fails env failure rest) :
    parseArguments env options rest = .error failure := by
  cases fails with
  | number rest option unread =>
    rcases option with rfl | rfl
    · simp [parseArguments, unread]
    · simp [parseArguments, unread]
  | factor rest unread => simp [parseArguments, unread]
  | script rest script missing =>
    rw [parseArguments_cons fun member =>
      absurd member (not_mem_valueOptions_of_script script), takeArgument_script script]
    simp only [missing]
  | option rest dashed unknown single =>
    simp only [flags, List.mem_cons, List.not_mem_nil, or_false, not_or] at unknown
    obtain ⟨p, print, c, check, v, version, module⟩ := unknown
    rw [parseArguments_cons single]
    simp only [takeArgument, p, print, c, check, v, version, module, or_self, if_false, dashed,
      ne_eq, not_true_eq_false]

theorem exists_item_of_flag (flag : arg ∈ flags) :
    ∃ item, Item.Valid env item ∧ Item.words item = [arg] := by
  simp only [flags, List.mem_cons, List.not_mem_nil, or_false] at flag
  rcases flag with rfl | rfl | rfl | rfl | rfl | rfl | rfl
  · exact ⟨.print false, trivial, rfl⟩
  · exact ⟨.print true, trivial, rfl⟩
  · exact ⟨.check false, trivial, rfl⟩
  · exact ⟨.check true, trivial, rfl⟩
  · exact ⟨.version false, trivial, rfl⟩
  · exact ⟨.version true, trivial, rfl⟩
  · exact ⟨.inputTypeModule, trivial, rfl⟩

/-- A command line begins with a valid item, or fails. -/
theorem exists_item_or_fails (args : List Text) (present : args ≠ []) :
    (∃ item rest, Item.Valid env item ∧ args = Item.words item ++ rest) ∨
      ∃ failure, Fails env failure args := by
  cases args with
  | nil => exact absurd rfl present
  | cons arg rest =>
    by_cases valued : arg ∈ valueOptions ∧ rest ≠ []
    · obtain ⟨option, follows⟩ := valued
      obtain ⟨value, rest, rfl⟩ := List.exists_cons_of_ne_nil follows
      simp only [valueOptions, List.mem_cons, List.not_mem_nil, or_false] at option
      rcases option with rfl | rfl | rfl | rfl
      · by_cases read : stoul value = none
        · exact .inr ⟨_, .number rest (.inl rfl) read⟩
        · exact .inl ⟨.cpuThreads value, rest, read, rfl⟩
      · by_cases read : stoul value = none
        · exact .inr ⟨_, .number rest (.inr rfl) read⟩
        · exact .inl ⟨.ioThreads value, rest, read, rfl⟩
      · by_cases read : env.stod value = none
        · exact .inr ⟨_, .factor rest read⟩
        · exact .inl ⟨.ioThreadsFactor value, rest, read, rfl⟩
      · exact .inl ⟨.execute value, rest, trivial, rfl⟩
    · by_cases dashed : arg.head? = some '-'
      · by_cases flag : arg ∈ flags
        · obtain ⟨item, valid, words⟩ := @exists_item_of_flag F env arg flag
          exact .inl ⟨item, rest, valid, by rw [words, List.singleton_append]⟩
        · refine .inr ⟨_, .option rest dashed flag fun option => ?_⟩
          by_contra follows
          exact valued ⟨option, follows⟩
      · by_cases missing : env.contents arg = none
        · exact .inr ⟨_, .script rest dashed missing⟩
        · exact .inl ⟨.script arg, rest, ⟨dashed, missing⟩, rfl⟩

/-- A command line is a sequence of valid items, with something behind them that fails or
nothing. -/
theorem exists_items (args : List Text) : ∃ (items : List Item) (rest : List Text),
    (∀ item ∈ items, item.Valid env) ∧ args = items.flatMap Item.words ++ rest ∧
      (rest = [] ∨ ∃ failure, Fails env failure rest) := by
  induction h : args.length using Nat.strong_induction_on generalizing args with
  | _ n ih =>
    subst h
    by_cases present : args = []
    · exact ⟨[], [], by simp, by simp [present], .inl rfl⟩
    · rcases @exists_item_or_fails F env args present with
        ⟨item, rest, valid, rfl⟩ | fails
      · have shorter : rest.length < (item.words ++ rest).length := by
          have words : 0 < item.words.length := by
            cases item with
            | cpuThreads | ioThreads | ioThreadsFactor | execute | print | check | version
            | inputTypeModule | script => exact Nat.succ_pos _
          rw [List.length_append]
          omega
        obtain ⟨items, left, all, same, ends⟩ := ih _ shorter rest rfl
        refine ⟨item :: items, left, List.forall_mem_cons.mpr ⟨valid, all⟩, ?_, ends⟩
        rw [List.flatMap_cons, List.append_assoc, ← same]
      · exact ⟨[], args, by simp, rfl, .inr fails⟩

/-- The loop accepts exactly the sequences of valid items, and sets what they mean. -/
theorem parseArguments_eq_ok_iff :
    parseArguments env { ioFactor := env.three } args = .ok options ↔
      ∃ items : List Item, (∀ item ∈ items, item.Valid env) ∧
        args = items.flatMap Item.words ∧ options = meaning env items := by
  constructor
  · intro parsed
    obtain ⟨items, rest, valid, rfl, ends⟩ := @exists_items F env args
    rw [parseArguments_items valid] at parsed
    rcases ends with rfl | ⟨failure, fails⟩
    · refine ⟨items, valid, List.append_nil _, ?_⟩
      rw [parseArguments, foldl_apply, Except.ok.injEq] at parsed
      exact parsed.symm
    · rw [parseArguments_of_fails fails] at parsed
      cases parsed
  · rintro ⟨items, valid, rfl, rfl⟩
    rw [← List.append_nil (items.flatMap Item.words), parseArguments_items valid, foldl_apply]
    rfl

/-- It fails exactly where something else stands behind a sequence of valid items. -/
theorem parseArguments_eq_error_iff :
    parseArguments env { ioFactor := env.three } args = .error failure ↔
      ∃ (items : List Item) (rest : List Text), (∀ item ∈ items, item.Valid env) ∧
        args = items.flatMap Item.words ++ rest ∧ Fails env failure rest := by
  constructor
  · intro parsed
    obtain ⟨items, rest, valid, rfl, ends⟩ := @exists_items F env args
    refine ⟨items, rest, valid, rfl, ?_⟩
    rw [parseArguments_items valid] at parsed
    rcases ends with rfl | ⟨other, fails⟩
    · rw [parseArguments] at parsed
      cases parsed
    · rw [parseArguments_of_fails fails, Except.error.injEq] at parsed
      rwa [← parsed]
  · rintro ⟨items, rest, valid, rfl, fails⟩
    rw [parseArguments_items valid, parseArguments_of_fails fails]

/-- The loop reads exactly the sequences of valid items, and stops with a failure exactly at the
first place where none begins. -/
theorem parseArguments_iff (env : Environment F) (args : List Text) :
    (∀ options, parseArguments env { ioFactor := env.three } args = .ok options ↔
      ∃ items : List Item, (∀ item ∈ items, item.Valid env) ∧
        args = items.flatMap Item.words ∧ options = meaning env items) ∧
    ∀ failure, parseArguments env { ioFactor := env.three } args = .error failure ↔
      ∃ (items : List Item) (rest : List Text), (∀ item ∈ items, item.Valid env) ∧
        args = items.flatMap Item.words ++ rest ∧ Fails env failure rest :=
  ⟨fun _ => parseArguments_eq_ok_iff, fun _ => parseArguments_eq_error_iff⟩

end Reading

/-! ### The program -/

/-- What an evaluation comes back with; the texts are those of `JS_ToCString`, which may fail, and a
value that is undefined has none. -/
inductive Evaluation where
  | value (text : Option Text)
  | exception (message : Option Text)
deriving DecidableEq, Repr

/-- What is printed to the standard error. -/
inductive Line where
  | usage
  | failure (failure : Failure)
  | noCode
  | exceptionIn (filename message : Text)
  | syntaxError (message : Text)
deriving DecidableEq, Repr

/-- What a run of the program comes to; there is no status if it is terminated. -/
structure Outcome where
  status : Option ℕ
  stdout : List Text := []
  stderr : List Line := []
  /-- The code that is evaluated, and its file name. -/
  evaluated : Option (Text × Text) := none
  repl : Bool := false
deriving DecidableEq, Repr

/-- `JSContextWrapper::eval` prints an exception and takes it from the context. -/
def report (filename : Text) (message : Option Text) : List Line :=
  (message.map (Line.exceptionIn filename)).toList

/-- `main` after its arguments are parsed, where the thread pools can be made and the code that is
run leaves the process alone. `taken` is the text of what `JS_GetException` returns if there is no
exception. -/
def proceed (evaluate : Text → Text → Evaluation) (taken : Option Text) (options : Options F) :
    Outcome :=
  if options.showVersion then { status := some 0, stdout := ["protoJS v0.1.0".toList] }
  else if options.code = [] ∧ !options.executeCode ∧ !options.syntaxCheck then
    { status := some 0, repl := true }
  else if options.code = [] ∧ !options.executeCode then
    { status := some 1, stderr := [.noCode, .usage] }
  else if options.syntaxCheck then
    match evaluate options.code options.filename with
    | .exception message =>
      { status := some 1
        stderr := report options.filename message ++ (taken.map Line.syntaxError).toList
        evaluated := some (options.code, options.filename) }
    | .value _ => { status := some 0, evaluated := some (options.code, options.filename) }
  else
    match evaluate options.code options.filename with
    | .exception message =>
      { status := some 0
        stderr := report options.filename message
        evaluated := some (options.code, options.filename) }
    | .value text =>
      { status := some 0
        stdout := if options.printResult then text.toList else []
        evaluated := some (options.code, options.filename) }

def main (evaluate : Text → Text → Evaluation) (taken : Option Text) (args : List Text) : Outcome :=
  if args = [] then { status := some 1, stderr := [.usage] }
  else
    match parseArguments env { ioFactor := env.three } args with
    | .error .terminated => { status := none }
    | .error (.couldNotOpen filename) =>
      { status := some 1, stderr := [.failure (.couldNotOpen filename)] }
    | .error (.unknownOption arg) =>
      { status := some 1, stderr := [.failure (.unknownOption arg), .usage] }
    | .ok options => proceed evaluate taken options

section Outcomes

variable {env} {options : Options F} {items : List Item} {args : List Text}
variable {evaluate : Text → Text → Evaluation} {taken : Option Text} {code filename : Text}

/-- Code is given, or a text that is not empty. -/
def Options.Runs (options : Options F) : Prop := options.executeCode = true ∨ options.code ≠ []

/-- What a check says of an exception is not what the exception was. -/
example : (main (F := Unit) ⟨fun _ => some "1 +".toList, fun _ => none, ()⟩
    (fun _ _ => .exception (some "unexpected token".toList)) (some "null".toList)
    ["-c".toList, "a.js".toList]) =
    { status := some 1
      stderr := [.exceptionIn "a.js".toList "unexpected token".toList, .syntaxError "null".toList]
      evaluated := some ("1 +".toList, "a.js".toList) } := by decide

end Outcomes

end ProtoJS.Program

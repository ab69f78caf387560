import ProtoJS.Npm.JsonDocument
import ProtoJS.Strings.ByteText

/-! # The script that runs

The executor looks for the name of a script between quotes, from the first place on at which
`"scripts"` stands, and takes what is between the next two quotes behind the next colon. That colon
is the one behind the key only if the name has none, as `test:unit` has.
-/

namespace ProtoJS.Npm

open Strings

namespace ScriptExecutor

/-- The commands that are given to `system`, and what is returned. -/
structure Outcome where
  calls : List Text
  result : ℤ
deriving DecidableEq

def scriptsName : Text := ['s', 'c', 'r', 'i', 'p', 't', 's']

/-- The text from the first place of a pattern on. -/
def fromFirst (pattern text : Text) : Option Text :=
  (text.dropInfix? pattern).map fun (_, rest) => pattern ++ rest

/-- What stands behind the next quote behind the next colon. Where nothing is found, `npos + 1` is
the start of the file. -/
def fromQuote (content text : Text) : Text :=
  match (text.dropWhile (· ≠ ':')).dropWhile (· ≠ '"') with
  | [] => content
  | _ :: rest => rest

/-- The command that is taken from a file. The key `"scripts"` is itself among what is searched for
the name. -/
def commandIn (content scriptName : Text) : Option Text :=
  ((fromFirst (quotedWord scriptsName) content).bind (fromFirst (quotedWord scriptName))).bind
    fun script =>
      let start := fromQuote content script
      if '"' ∈ start then some (start.takeWhile (· ≠ '"')) else none

def executeScript (readFile : Text → Option Text) (system : Text → ℤ)
    (scriptName packageJsonPath : Text) : Outcome :=
  match (readFile packageJsonPath).bind (commandIn · scriptName) with
  | none => ⟨[], 1⟩
  | some command => ⟨[cString command], system (cString command)⟩

section Search

variable {content name : Text}

/-- Where the search for a script begins. -/
def scriptIn (content name : Text) : Option Text :=
  (fromFirst (quotedWord scriptsName) content).bind (fromFirst (quotedWord name))

/-- There is one quote, and not more. -/
def OneQuote (text : Text) : Prop := ∃ a b, text = a ++ '"' :: b ∧ '"' ∉ a ∧ '"' ∉ b

/-- The name is not found, or a single quote stands behind the next colon. -/
def NothingToRun (content name : Text) : Prop :=
  ∀ script, scriptIn content name = some script → OneQuote (script.dropWhile (· ≠ ':'))

theorem fromFirst_eq_some {pattern text found : Text} (here : fromFirst pattern text = some found) :
    ∃ front rest, text = front ++ found ∧ found = pattern ++ rest := by
  obtain ⟨⟨front, rest⟩, occurs, rfl⟩ := Option.map_eq_some_iff.1 here
  obtain ⟨same, -⟩ := dropInfix?_eq_some.1 occurs
  exact ⟨front, rest, by rw [same, List.append_assoc], rfl⟩

theorem quote_mem_of_scriptIn {script : Text} (found : scriptIn content name = some script) :
    '"' ∈ content := by
  obtain ⟨scripts, first, second⟩ := Option.bind_eq_some_iff.1 found
  obtain ⟨front, rest, rfl, rfl⟩ := fromFirst_eq_some first
  simp [quotedWord]

theorem fromQuote_of_split {a b script : Text}
    (split : script.dropWhile (· ≠ ':') = a ++ '"' :: b) (unquoted : '"' ∉ a) :
    fromQuote content script = b := by
  rw [fromQuote, split, dropWhile_ne_cons unquoted]

theorem fromQuote_of_not_mem {script : Text} (unquoted : '"' ∉ script.dropWhile (· ≠ ':')) :
    fromQuote content script = content := by
  rw [fromQuote, dropWhile_ne_of_not_mem unquoted]

theorem commandIn_of_scriptIn {script : Text} (found : scriptIn content name = some script) :
    commandIn content name = if '"' ∈ fromQuote content script then
      some ((fromQuote content script).takeWhile (· ≠ '"')) else none := by
  rw [commandIn, ← scriptIn, found, Option.bind_some]

theorem commandIn_eq_none_iff : commandIn content name = none ↔ NothingToRun content name := by
  cases found : scriptIn content name with
  | none =>
    have nothing : commandIn content name = none := by rw [commandIn, ← scriptIn, found]; rfl
    simp [nothing, NothingToRun, found]
  | some script =>
    have single : NothingToRun content name ↔ OneQuote (script.dropWhile (· ≠ ':')) := by
      simp [NothingToRun, found]
    rw [single, commandIn_of_scriptIn found, ite_eq_right_iff, imp_iff_not (by simp)]
    constructor
    · intro unquoted
      by_cases quoted : '"' ∈ script.dropWhile (· ≠ ':')
      · obtain ⟨a, b, split, clean⟩ := List.eq_append_cons_of_mem quoted
        rw [fromQuote_of_split split clean] at unquoted
        exact ⟨a, b, split, clean, unquoted⟩
      · rw [fromQuote_of_not_mem quoted] at unquoted
        exact absurd (quote_mem_of_scriptIn found) unquoted
    · rintro ⟨a, b, split, clean, last⟩
      rwa [fromQuote_of_split split clean]

end Search

section Documents

/-- The script that a document has under a name. -/
def ScriptOf (d : JsonDocument) (name value : Text) : Prop :=
  ∃ o, d.ObjectAt bytesOfChar scriptsName o ∧ EntryOf bytesOfChar o name value

/-- The scripts of a document, if there are any, have no such member. -/
def NoScript (d : JsonDocument) (name : Text) : Prop :=
  ∀ o, d.ObjectAt bytesOfChar scriptsName o → Missing bytesOfChar name o.members

/-- The script of the name is run, and nothing is run where there is none. -/
def RunsScript (system : Text → ℤ) (d : JsonDocument) (name : Text) (outcome : Outcome) : Prop :=
  (∀ value, ScriptOf d name value → outcome = ⟨[value], system value⟩) ∧
    (NoScript d name → outcome = ⟨[], 1⟩)

/-- The scripts and behind them the script are first found where they are the keys of the members
that count. -/
structure FoundAtKeys (d : JsonDocument) (name : Text) (m : JsonMember JsonItem)
    (o : JsonObject JsonLeaf) (e : JsonMember JsonLeaf) : Prop where
  scripts : IsLast bytesOfChar scriptsName d.object.members m
  object : m.value = .object o
  script : IsLast bytesOfChar name o.members e
  first : ∃ behind rest, FirstKey JsonItem.text d.front d.object d.back scriptsName m
      (m.beforeColon ++ ':' :: (m.afterColon ++ (o.text JsonLeaf.text ++ behind))) ∧
    FirstKey JsonLeaf.text (quotedWord scriptsName ++ (m.beforeColon ++ ':' :: m.afterColon)) o
      behind name e rest

/-- The script is found at its key and has no escapes, and its name has no colon. With one, what
is taken is what stands between the key and the value. -/
def ReadAtKeys (d : JsonDocument) (name value : Text) : Prop :=
  ∃ m o e body, FoundAtKeys d name m o e ∧ e.value = .string body ∧
    (':' ∉ name ∧ '\\' ∉ body ∨ ':' ∈ name ∧ value = e.beforeColon ++ ':' :: e.afterColon)

def Runnable (d : JsonDocument) (name : Text) : Prop :=
  (∀ value, ScriptOf d name value → ReadAtKeys d name value) ∧
    (NoScript d name → NothingToRun d.text name)

/-- A script that there is, is found at its key or not at all. -/
def Regular (d : JsonDocument) (name : Text) : Prop :=
  ∀ value, ScriptOf d name value →
    (∃ m o e, FoundAtKeys d name m o e) ∨ scriptIn d.text name = none

variable {d : JsonDocument} {name : Text}

theorem fromFirst_of_firstKey {V : Type} {write : V → Text} {before after rest : Text}
    {o : JsonObject V} {m : JsonMember V} (first : FirstKey write before o after name m rest) :
    fromFirst (quotedWord name) (before ++ (o.text write ++ after)) =
      some (quotedWord name ++ rest) := by
  obtain ⟨_, _, _, _, found⟩ := first
  rw [fromFirst, found]
  rfl

/-- Where the search begins, the key is followed by the value. -/
theorem FoundAtKeys.scriptIn_eq {m : JsonMember JsonItem} {o : JsonObject JsonLeaf}
    {e : JsonMember JsonLeaf} (found : FoundAtKeys d name m o e) :
    ∃ behind, scriptIn d.text name =
      some (quotedWord name ++ (e.rest JsonLeaf.text ++ behind)) := by
  obtain ⟨behind, rest, first, second⟩ := found.first
  obtain ⟨later, rfl⟩ := second.exists_rest
  have outer := fromFirst_of_firstKey first
  have inner := fromFirst_of_firstKey second
  refine ⟨trailing JsonLeaf.text later ++ '}' :: behind, ?_⟩
  rw [scriptIn, JsonDocument.text, outer, Option.bind_some, ← inner]
  simp

theorem FoundAtKeys.valid {m : JsonMember JsonItem} {o : JsonObject JsonLeaf}
    {e : JsonMember JsonLeaf} (found : FoundAtKeys d name m o e) : e.Valid JsonLeaf.Legal := by
  have outer := d.object_valid.members m found.scripts.mem.1
  have inner := outer.value
  rw [found.object] at inner
  exact inner.members e found.script.mem.1

/-- The command that is taken at the keys: with a colon in the name, what is between the key and
the value. -/
theorem FoundAtKeys.commandIn_eq {m : JsonMember JsonItem} {o : JsonObject JsonLeaf}
    {e : JsonMember JsonLeaf} {body : Text} (found : FoundAtKeys d name m o e)
    (string : e.value = .string body) :
    commandIn d.text name = some (if ':' ∈ name then e.beforeColon ++ ':' :: e.afterColon
      else body.takeWhile (· ≠ '"')) := by
  obtain ⟨behind, script⟩ := found.scriptIn_eq
  have valid := found.valid
  have unquoted : '"' ∉ name := by
    obtain ⟨_, _, -, second⟩ := found.first
    obtain ⟨_, _, -, rfl, -⟩ := second
    exact (found.script.mem.2.unescaped_of_self encoding_bytesOfChar).2
  have noQuote : '"' ∉ e.beforeColon ++ ':' :: e.afterColon := by
    have before := valid.beforeColon.not_mem (c := '"') (by decide)
    have after := valid.afterColon.not_mem (c := '"') (by decide)
    simp [before, after]
  have rest : e.rest JsonLeaf.text ++ behind = (e.beforeColon ++ ':' :: e.afterColon) ++
      '"' :: (body ++ '"' :: (e.after ++ behind)) := by
    simp [JsonMember.rest, string, JsonLeaf.text, quotedWord]
  rw [commandIn_of_scriptIn script]
  by_cases colon : ':' ∈ name
  · -- The next colon is in the name, and the next quote is the one that ends it.
    obtain ⟨a, b, split, noColon⟩ := List.eq_append_cons_of_mem colon
    have inName : (quotedWord name ++ (e.rest JsonLeaf.text ++ behind)).dropWhile (· ≠ ':') =
        (':' :: b) ++ '"' :: (e.rest JsonLeaf.text ++ behind) := by
      have shape : quotedWord name ++ (e.rest JsonLeaf.text ++ behind) =
          ('"' :: a) ++ ':' :: (b ++ '"' :: (e.rest JsonLeaf.text ++ behind)) := by
        simp [quotedWord, split]
      rw [shape, dropWhile_ne_cons (by simpa using noColon), List.cons_append]
    have clean : '"' ∉ ':' :: b := by
      rw [split] at unquoted
      simp only [List.mem_append, not_or] at unquoted
      exact unquoted.2
    rw [fromQuote_of_split inName clean, rest, if_pos (by simp), takeWhile_ne_cons noQuote,
      if_pos colon]
  · have behindKey : (quotedWord name ++ (e.rest JsonLeaf.text ++ behind)).dropWhile (· ≠ ':') =
        (':' :: e.afterColon) ++ '"' :: (body ++ '"' :: (e.after ++ behind)) := by
      have before := valid.beforeColon.not_mem (c := ':') (by decide)
      have shape : quotedWord name ++ (e.rest JsonLeaf.text ++ behind) =
          (quotedWord name ++ e.beforeColon) ++
            ':' :: (e.afterColon ++ '"' :: (body ++ '"' :: (e.after ++ behind))) := by
        rw [rest]
        simp
      rw [shape, dropWhile_ne_cons (by simp [quotedWord, colon, before]), List.cons_append]
    have clean : '"' ∉ ':' :: e.afterColon := by
      have after := valid.afterColon.not_mem (c := '"') (by decide)
      simp [after]
    rw [fromQuote_of_split behindKey clean, if_pos (by simp), takeWhile_quote_append,
      if_neg colon]

/-- What is taken has no zero byte that would end it. -/
theorem FoundAtKeys.cString_eq {m : JsonMember JsonItem} {o : JsonObject JsonLeaf}
    {e : JsonMember JsonLeaf} {body : Text} (found : FoundAtKeys d name m o e)
    (string : e.value = .string body) :
    cString (e.beforeColon ++ ':' :: e.afterColon) = e.beforeColon ++ ':' :: e.afterColon ∧
      cString (body.takeWhile (· ≠ '"')) = body.takeWhile (· ≠ '"') := by
  have valid := found.valid
  rw [cString_eq_self_iff, cString_eq_self_iff]
  constructor
  · have before := valid.beforeColon.not_mem (c := '\x00') (by decide)
    have after := valid.afterColon.not_mem (c := '\x00') (by decide)
    simp [before, after]
  · have isBody : IsStringBody body := by
      have legal := valid.value
      rw [string] at legal
      exact legal
    exact fun member =>
      isBody.control_not_mem (by decide) ((List.takeWhile_prefix _).subset member)

variable {readFile : Text → Option Text} {system : Text → ℤ} {packageJsonPath : Text}

theorem executeScript_eq (stored : readFile packageJsonPath = some d.text) :
    executeScript readFile system name packageJsonPath =
      match commandIn d.text name with
      | none => ⟨[], 1⟩
      | some command => ⟨[cString command], system (cString command)⟩ := by
  rw [executeScript, stored, Option.bind_some]

/-- A script that is found at its key is run exactly if it is read there. -/
theorem executeScript_eq_iff (stored : readFile packageJsonPath = some d.text)
    {m : JsonMember JsonItem} {o : JsonObject JsonLeaf} {e : JsonMember JsonLeaf} {body : Text}
    (found : FoundAtKeys d name m o e) (string : e.value = .string body) {value : Text}
    (decodes : JsonDecodes bytesOfChar body value) :
    executeScript readFile system name packageJsonPath = ⟨[value], system value⟩ ↔
      ':' ∉ name ∧ '\\' ∉ body ∨ ':' ∈ name ∧ value = e.beforeColon ++ ':' :: e.afterColon := by
  obtain ⟨betweenIs, bodyIs⟩ := found.cString_eq string
  have runs (command : Text) :
      (⟨[command], system command⟩ : Outcome) = ⟨[value], system value⟩ ↔ command = value := by
    rw [Outcome.mk.injEq, List.singleton_inj, and_iff_left_iff_imp]
    rintro rfl
    rfl
  rw [executeScript_eq stored, found.commandIn_eq string]
  dsimp only
  by_cases colon : ':' ∈ name
  · rw [if_pos colon, betweenIs, runs, eq_comm]
    simp [colon]
  · rw [if_neg colon, bodyIs, runs, decodes.takeWhile_eq_iff encoding_bytesOfChar]
    simp [colon]

theorem executeScript_eq_nothing_iff (stored : readFile packageJsonPath = some d.text) :
    executeScript readFile system name packageJsonPath = ⟨[], 1⟩ ↔ NothingToRun d.text name := by
  rw [executeScript_eq stored, ← commandIn_eq_none_iff]
  cases commandIn d.text name <;> simp

/-- The member of a script is the one that its name has. -/
theorem FoundAtKeys.eq_of_scriptOf {m : JsonMember JsonItem} {o : JsonObject JsonLeaf}
    {e : JsonMember JsonLeaf} {value : Text} (found : FoundAtKeys d name m o e)
    (script : ScriptOf d name value) :
    ∃ body, e.value = .string body ∧ JsonDecodes bytesOfChar body value := by
  obtain ⟨o', ⟨m', scripts, object⟩, e', body, last, string, decodes⟩ := script
  obtain rfl := found.scripts.unique scripts
  rw [found.object] at object
  cases object
  obtain rfl := found.script.unique last
  exact ⟨body, string, decodes⟩

/-- A script of a file is run, and nothing where there is none, if the script is read at its key,
or nothing is found to run. Where a script is found at its key or not at all, that is also
needed. -/
theorem runsScript_of_runnable (stored : readFile packageJsonPath = some d.text) :
    (Runnable d name →
      RunsScript system d name (executeScript readFile system name packageJsonPath)) ∧
    (Regular d name →
      (RunsScript system d name (executeScript readFile system name packageJsonPath) ↔
        Runnable d name)) := by
  have run (runnable : Runnable d name) :
      RunsScript system d name (executeScript readFile system name packageJsonPath) := by
    refine ⟨fun value script => ?_, fun none => ?_⟩
    · obtain ⟨m, o, e, body, found, string, condition⟩ := runnable.1 value script
      obtain ⟨body', string', decodes⟩ := found.eq_of_scriptOf script
      rw [string] at string'
      cases string'
      exact (executeScript_eq_iff stored found string decodes).2 condition
    · exact (executeScript_eq_nothing_iff stored).2 (runnable.2 none)
  refine ⟨run, fun regular => ⟨fun runs => ⟨fun value script => ?_, fun none => ?_⟩, run⟩⟩
  · have outcome := runs.1 value script
    rcases regular value script with ⟨m, o, e, found⟩ | unfound
    · obtain ⟨body, string, decodes⟩ := found.eq_of_scriptOf script
      exact ⟨m, o, e, body, found, string,
        (executeScript_eq_iff stored found string decodes).1 outcome⟩
    · have nothing : NothingToRun d.text name := by
        intro script found
        rw [unfound] at found
        cases found
      rw [(executeScript_eq_nothing_iff stored).2 nothing] at outcome
      cases outcome
  · exact (executeScript_eq_nothing_iff stored).1 (runs.2 none)

/-- A file with a single script. -/
def singleScript (name command : Text) (plain : IsPlain name ∧ IsPlain command) : JsonDocument :=
  .compact [(scriptsName, .object (.compact [(name, .string command)]))] (by
    rw [List.forall_mem_singleton]
    refine ⟨by simp [IsPlain, scriptsName], JsonObject.compact_valid ?_⟩
    rw [List.forall_mem_singleton]
    exact ⟨plain.1, plain.2.isStringBody⟩)

theorem scriptOf_singleScript {name command : Text} (plain : IsPlain name ∧ IsPlain command) :
    ScriptOf (singleScript name command plain) name command := by
  refine ⟨_, ⟨_, ⟨[], [], rfl, IsPlain.jsonDecodes ?_, by simp⟩, rfl⟩, _, command,
    ⟨[], [], rfl, plain.1.jsonDecodes, by simp⟩, rfl, plain.2.jsonDecodes⟩
  simp [IsPlain, scriptsName]

/-- `{"scripts":{"test":"ls"}}`. -/
def testScript : JsonDocument :=
  singleScript ['t', 'e', 's', 't'] ['l', 's'] (by simp [IsPlain])

theorem runnable_testScript : Runnable testScript ['t', 'e', 's', 't'] := by
  have script : ScriptOf testScript ['t', 'e', 's', 't'] ['l', 's'] := scriptOf_singleScript _
  refine ⟨fun value other => ?_, fun none => ?_⟩
  · obtain ⟨o, ⟨m, scripts, object⟩, e, body, last, string, -⟩ := script
    have first := scripts.mem.1
    rw [List.mem_singleton.1 first] at object scripts
    cases object
    have second := last.mem.1
    rw [List.mem_singleton.1 second] at string last
    cases string
    refine ⟨_, _, _, _, ⟨scripts, rfl, last, ['}'], ?rest, ⟨[], [], rfl, rfl, ?_⟩,
      [], [], rfl, rfl, ?_⟩, rfl, .inl ⟨by decide, by decide⟩⟩
    · exact [':', '"', 'l', 's', '"', '}', '}']
    · decide +kernel
    · decide +kernel
  · obtain ⟨o, object, e, body, last, -⟩ := script
    exact absurd (none o object) last.not_missing

theorem runsScript_testScript : RunsScript (fun _ => 0) testScript ['t', 'e', 's', 't']
    (executeScript (fun _ => some testScript.text) (fun _ => 0) ['t', 'e', 's', 't'] []) :=
  (runsScript_of_runnable rfl).1 runnable_testScript

/-- `{"scripts":{"test:unit":"ls"}}`. -/
def unitScript : JsonDocument :=
  singleScript ['t', 'e', 's', 't', ':', 'u', 'n', 'i', 't'] ['l', 's'] (by simp [IsPlain])

/-- The colon between the key and the value is run. -/
theorem not_runsScript_unitScript :
    executeScript (fun _ => some unitScript.text) (fun _ => 0)
        ['t', 'e', 's', 't', ':', 'u', 'n', 'i', 't'] [] = ⟨[[':']], 0⟩ ∧
      ¬RunsScript (fun _ => 0) unitScript ['t', 'e', 's', 't', ':', 'u', 'n', 'i', 't']
        ⟨[[':']], 0⟩ := by
  refine ⟨by decide +kernel, fun runs => ?_⟩
  have outcome := runs.1 ['l', 's'] (scriptOf_singleScript _)
  revert outcome
  decide

end Documents

end ScriptExecutor

end ProtoJS.Npm

import ProtoJS.Npm.PackageInstaller
import ProtoJS.Strings.ByteText
import ProtoJS.Strings.ShellWords

/-! # The command that extracts a tarball

Both paths are put between double quotes as they are. A path with a character that means something
there, or with a backslash that does, is not the word that `tar` gets.
-/

namespace ProtoJS.Npm.PackageInstaller

open Strings Shell

/-- The `command` of `extractTarball`. -/
def extractCommand (tarballPath targetDir : Text) : Text :=
  "tar -xzf \"".toList ++ tarballPath ++ "\" -C \"".toList ++ targetDir ++
    "\" --strip-components=1 2>/dev/null".toList

/-- What `system` gets: `command.c_str()`. -/
def systemArgument (tarballPath targetDir : Text) : Text :=
  cString (extractCommand tarballPath targetDir)

/-- `system` as a shell that is given a line. -/
def withShell {σ : Type} (w : World σ) (shell : Text → EStateM Failure σ ℤ) : World σ :=
  { w with system := fun tarballPath targetDir => shell (systemArgument tarballPath targetDir) }

theorem extractTarball_withShell {σ : Type} (w : World σ) (shell : Text → EStateM Failure σ ℤ)
    (tarballPath targetDir : Text) :
    extractTarball (withShell w shell) tarballPath targetDir = do
      let result ← shell (systemArgument tarballPath targetDir)
      return result = 0 :=
  rfl

/-- The command that is meant. -/
def extraction (tarballPath targetDir : Text) : SimpleCommand where
  words := ["tar".toList, "-xzf".toList, tarballPath, "-C".toList, targetDir,
    "--strip-components=1".toList]
  redirections := [⟨some ['2'], '>', "/dev/null".toList⟩]

variable {tarballPath targetDir : Text}

/-- The texts in front of the paths and behind them, character by character. -/
def commandStart : Text := ['t', 'a', 'r', ' ', '-', 'x', 'z', 'f', ' ', '"']

def commandBetween : Text := ['-', 'C', ' ', '"']

def strip : Text :=
  ['-', '-', 's', 't', 'r', 'i', 'p', '-', 'c', 'o', 'm', 'p', 'o', 'n', 'e', 'n', 't', 's', '=', '1']

def devNull : Text := ['/', 'd', 'e', 'v', '/', 'n', 'u', 'l', 'l']

def commandEnd : Text := strip ++ ' ' :: '2' :: '>' :: devNull

theorem toList_start : "tar -xzf \"".toList = commandStart := by decide +kernel

theorem toList_between : "\" -C \"".toList = '"' :: ' ' :: commandBetween := by decide +kernel

theorem toList_end : "\" --strip-components=1 2>/dev/null".toList = '"' :: ' ' :: commandEnd := by
  decide +kernel

theorem extractCommand_eq : extractCommand tarballPath targetDir =
    commandStart ++ (tarballPath ++ '"' :: ' ' ::
      (commandBetween ++ (targetDir ++ '"' :: ' ' :: commandEnd))) := by
  unfold extractCommand
  rw [toList_start, toList_between, toList_end]
  generalize commandStart = start, commandBetween = between, commandEnd = behind
  simp only [List.append_assoc, List.cons_append]

theorem systemArgument_eq (nulFree : '\x00' ∉ tarballPath ∧ '\x00' ∉ targetDir) :
    systemArgument tarballPath targetDir = extractCommand tarballPath targetDir := by
  have start : '\x00' ∉ commandStart := by decide
  have between : '\x00' ∉ '"' :: ' ' :: commandBetween := by decide
  have behind : '\x00' ∉ '"' :: ' ' :: commandEnd := by decide
  rw [systemArgument, cString_eq_self_iff, extractCommand_eq]
  simp only [List.mem_append, List.mem_cons, not_or] at between behind ⊢
  exact ⟨start, nulFree.1, between.1, between.2.1, between.2.2, nulFree.2, behind⟩

/-- The tokens in front of the first path, between the paths and behind them. -/
def tokensBefore : List Token := [.word ['t', 'a', 'r'], .word ['-', 'x', 'z', 'f']]

def tokensBetween : List Token := [.word ['-', 'C']]

def tokensBehind : List Token :=
  [.word strip, .ioNumber ['2'], .operator '>', .word devNull]

theorem run_start : Reader.run {} commandStart = .ok (Reader.inQuotes tokensBefore [] false) :=
  rfl

theorem run_between (before : List Token) :
    Reader.run ⟨before, none, .plain⟩ commandBetween =
      .ok (Reader.inQuotes (before ++ tokensBetween) [] false) :=
  rfl

theorem run_closing (before : List Token) (word : Text) :
    (Reader.inQuotes before word false).run ['"', ' '] =
      .ok ⟨before ++ [.word word], none, .plain⟩ :=
  rfl

theorem read_end (before : List Token) :
    ∃ next, Reader.run ⟨before, none, .plain⟩ commandEnd = .ok next ∧
      next.finish = .ok (before ++ tokensBehind) := by
  have first : Reader.run ⟨before, none, .plain⟩ strip = .ok ⟨before, some ⟨strip, false⟩, .plain⟩ :=
    Reader.run_ordinary rfl (List.cons_ne_nil _ _) rfl
  have second : Reader.run ⟨before, some ⟨strip, false⟩, .plain⟩ [' ', '2', '>'] =
      .ok ⟨before ++ [.word strip] ++ [.ioNumber ['2']] ++ [.operator '>'], none, .plain⟩ :=
    rfl
  have third (done : List Token) :
      Reader.run ⟨done, none, .plain⟩ devNull = .ok ⟨done, some ⟨devNull, false⟩, .plain⟩ :=
    Reader.run_ordinary rfl (List.cons_ne_nil _ _) rfl
  refine ⟨_, (Reader.run_append _ strip _).mpr ⟨_, first, (Reader.run_append _ [' ', '2', '>'] _).mpr
    ⟨_, second, third _⟩⟩, ?_⟩
  simp [Reader.finish, Reader.endWord, tokensBehind]

/-- Two paths whose characters stand for themselves are read as they are. -/
theorem tokensOf_extractCommand (first : Verbatim tarballPath) (second : Verbatim targetDir) :
    tokensOf (extractCommand tarballPath targetDir) =
      .ok (tokensBefore ++ [.word tarballPath] ++ tokensBetween ++ [.word targetDir] ++
        tokensBehind) := by
  obtain ⟨next, ran, finished⟩ :=
    read_end (tokensBefore ++ [.word tarballPath] ++ tokensBetween ++ [.word targetDir])
  have line : Reader.run {} (extractCommand tarballPath targetDir) = .ok next := by
    rw [extractCommand_eq, Reader.run_append]
    refine ⟨_, run_start, (Reader.run_append _ _ _).mpr ⟨_, Reader.run_verbatim first, ?_⟩⟩
    refine (Reader.run_append _ ['"', ' '] _).mpr ⟨_, run_closing _ _, ?_⟩
    refine (Reader.run_append _ _ _).mpr ⟨_, run_between _, ?_⟩
    refine (Reader.run_append _ _ _).mpr ⟨_, Reader.run_verbatim second, ?_⟩
    exact (Reader.run_append _ ['"', ' '] _).mpr ⟨_, run_closing _ _, ran⟩
  rw [tokensOf, line]
  exact finished

/-- The words of the command that is meant. -/
def wordsMeant (tarballPath targetDir : Text) : List Text :=
  [['t', 'a', 'r'], ['-', 'x', 'z', 'f'], tarballPath, ['-', 'C'], targetDir, strip]

theorem extraction_eq : extraction tarballPath targetDir =
    ⟨wordsMeant tarballPath targetDir, [⟨some ['2'], '>', devNull⟩]⟩ := by
  have tar : "tar".toList = ['t', 'a', 'r'] := by decide +kernel
  have flags : "-xzf".toList = ['-', 'x', 'z', 'f'] := by decide +kernel
  have directory : "-C".toList = ['-', 'C'] := by decide +kernel
  have components : "--strip-components=1".toList = strip := by decide +kernel
  have null : "/dev/null".toList = devNull := by decide +kernel
  rw [extraction, tar, flags, directory, components, null, wordsMeant]

/-- The command that `system` gets is the one that is meant exactly when in both paths every
character stands for itself between double quotes. -/
theorem readCommand_iff (nulFree : '\x00' ∉ tarballPath ∧ '\x00' ∉ targetDir) :
    readCommand (systemArgument tarballPath targetDir) = some (extraction tarballPath targetDir) ↔
      Verbatim tarballPath ∧ Verbatim targetDir := by
  rw [systemArgument_eq nulFree]
  constructor
  · intro read
    obtain ⟨tokens, next, ran, finished, command⟩ := readCommand_eq_some_iff.mp read
    rw [extraction_eq] at command
    rw [extractCommand_eq] at ran
    obtain ⟨_, start, ran⟩ := (Reader.run_append _ _ _).mp ran
    cases run_start.symm.trans start
    have first : Verbatim tarballPath :=
      @verbatim_of_command [_, _] [_, _, _] _ _ _ _ _ ran finished command rfl
    obtain ⟨_, inside, ran⟩ := (Reader.run_append _ _ _).mp ran
    cases (Reader.run_verbatim first).symm.trans inside
    obtain ⟨_, closing, ran⟩ := (Reader.run_append _ ['"', ' '] _).mp ran
    cases (run_closing _ _).symm.trans closing
    obtain ⟨_, between, ran⟩ := (Reader.run_append _ _ _).mp ran
    cases (run_between _).symm.trans between
    exact ⟨first, @verbatim_of_command [_, _, _, _] [_] _ _ _ _ _ ran finished command rfl⟩
  · rintro ⟨first, second⟩
    rw [readCommand, tokensOf_extractCommand first second, extraction_eq]
    rfl

/-- Paths with a blank, a quote of the other kind and a backslash that means nothing. -/
theorem readCommand_iff_blank :
    readCommand (systemArgument "a b'c".toList "n\\d".toList) =
        some (extraction "a b'c".toList "n\\d".toList) ↔
      Verbatim "a b'c".toList ∧ Verbatim "n\\d".toList :=
  readCommand_iff ⟨by decide, by decide⟩

/-- A package named `$(id)`, in the directory `m`. -/
def substitution : Text × Text :=
  (Npm.tarballPath (tempDir "m".toList "$(id)".toList) "$(id)".toList "1.0.0".toList,
    packageDir "m".toList "$(id)".toList)

/-- Its name is no part of a word but a command that is run. -/
theorem readCommand_substitution :
    ('\x00' ∉ substitution.1 ∧ '\x00' ∉ substitution.2) ∧
      tokensOf (systemArgument substitution.1 substitution.2) = .error (.expansion '$') ∧
      readCommand (systemArgument substitution.1 substitution.2) ≠
        some (extraction substitution.1 substitution.2) := by
  decide +kernel

end ProtoJS.Npm.PackageInstaller

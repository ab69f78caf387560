import ProtoJS.Strings.Extraction

/-! # Versions and version ranges

The class `Semver`. A version is a text; `parse` cuts it into numbers, pre-release and build. The
only exception its functions can throw is the `out_of_range` of `substr`.
-/

namespace ProtoJS.Npm

open Strings

/-- `std::out_of_range`. -/
inductive OutOfRange where
  | substr
deriving DecidableEq, Repr

/-- What `parse` writes to its reference parameters. -/
structure Version where
  major : ℤ
  minor : ℤ
  patch : ℤ
  prerelease : Text
  build : Text
deriving DecidableEq, Repr

/-- The operators that `parseRange` tells apart; `none` is the empty one. -/
inductive RangeOp where
  | none
  | eq
  | gt
  | ge
  | lt
  | le
  | tilde
  | caret
deriving DecidableEq, Repr

/-- `text.find(c)`, with `none` for `npos`. -/
def find (c : Char) (text : Text) : Option ℕ := text.findIdx? (· == c)

/-- `text.substr(position)`. -/
def substr (position : ℕ) (text : Text) : Except OutOfRange Text :=
  if position ≤ text.length then .ok (text.drop position) else .error .substr

namespace Semver

/-- `iss >> major >> dot1 >> minor >> dot2 >> patch` and the test of the dots. -/
def parseNumbers (v : Text) : Option (ℤ × ℤ × ℤ) := do
  let (major, v) ← extractInt v
  let (dot1, v) ← extractChar v
  let (minor, v) ← extractInt v
  let (dot2, v) ← extractChar v
  let (patch, _) ← extractInt v
  if dot1 ≠ '.' ∨ dot2 ≠ '.' then none else some (major, minor, patch)

/-- The text without a leading `v`. -/
def withoutV (version : Text) : Text :=
  if version.head? = some 'v' then version.tail else version

/-- What follows a separator, `substr(pos + 1)`, and the text before it, `substr(0, pos)`; without
a separator nothing follows. -/
def cutAt (pos : Option ℕ) (v : Text) : Except OutOfRange (Text × Text) :=
  match pos with
  | none => .ok ([], v)
  | some pos => (substr (pos + 1) v).map fun label => (label, v.take pos)

/-- Callers read the parameters only where `parse` returns true, so `none` is its false. -/
def parse (version : Text) : Except OutOfRange (Option Version) := do
  let v := withoutV version
  -- Both positions are those in the text that is not cut yet.
  let prereleasePos := find '-' v
  let buildPos := find '+' v
  let (build, v) ← cutAt buildPos v
  let (prerelease, v) ← cutAt prereleasePos v
  pure ((parseNumbers v).map fun (major, minor, patch) =>
    { major, minor, patch, prerelease, build })

def comparePrerelease (p1 p2 : Text) : ℤ := if p1 < p2 then -1 else if p2 < p1 then 1 else 0

/-- The part of `compare` that follows the two calls of `parse`. -/
def compareParsed (a b : Version) : ℤ :=
  if a.major < b.major then -1
  else if a.major > b.major then 1
  else if a.minor < b.minor then -1
  else if a.minor > b.minor then 1
  else if a.patch < b.patch then -1
  else if a.patch > b.patch then 1
  else if a.prerelease = [] ∧ b.prerelease ≠ [] then 1
  else if a.prerelease ≠ [] ∧ b.prerelease = [] then -1
  else if a.prerelease ≠ [] ∧ b.prerelease ≠ [] then comparePrerelease a.prerelease b.prerelease
  else 0

def compare (v1 v2 : Text) : Except OutOfRange ℤ := do
  let some a ← parse v1 | return 0
  let some b ← parse v2 | return 0
  return compareParsed a b

/-- A range without its white space, cut into operator and version. -/
def parseRange (range : Text) : Option (RangeOp × Text) :=
  match range.filter fun c => !isSpace c with
  | [] => none
  | '>' :: '=' :: version => some (.ge, version)
  | '<' :: '=' :: version => some (.le, version)
  | '>' :: version => some (.gt, version)
  | '<' :: version => some (.lt, version)
  | '=' :: version => some (.eq, version)
  | '~' :: version => some (.tilde, version)
  | '^' :: version => some (.caret, version)
  | version => some (.none, version)

/-- The tilde branch: the same minor, and a patch that is not lower. -/
def tildeAllows (version targetVersion : Text) : Except OutOfRange Bool := do
  let some target ← parse targetVersion | return false
  let some v ← parse version | return false
  if v.major ≠ target.major then return false
  if v.minor ≠ target.minor then return false
  return decide (v.patch ≥ target.patch)

/-- The caret branch: the same major, and under major 0 as under a tilde. -/
def caretAllows (version targetVersion : Text) : Except OutOfRange Bool := do
  let some target ← parse targetVersion | return false
  let some v ← parse version | return false
  if v.major ≠ target.major then return false
  if v.major = 0 then
    if v.minor ≠ target.minor then return false
    return decide (v.patch ≥ target.patch)
  return true

def satisfies (version range : Text) : Except OutOfRange Bool :=
  if range = "*".toList ∨ range = "latest".toList then pure true
  else match parseRange range with
    | none => return (← compare version range) = 0
    | some (op, targetVersion) => do
      let cmp ← compare version targetVersion
      match op with
      | .none | .eq => return cmp = 0
      | .gt => return cmp > 0
      | .ge => return cmp ≥ 0
      | .lt => return cmp < 0
      | .le => return cmp ≤ 0
      | .tilde => tildeAllows version targetVersion
      | .caret => caretAllows version targetVersion

/-- One round of the loop of `findHighest`. -/
def findHighestStep (range highest version : Text) : Except OutOfRange Text := do
  if ← satisfies version range then
    if highest = [] then return version
    else if (← compare version highest) > 0 then return version
    else return highest
  else return highest

def findHighest (versions : List Text) (range : Text) : Except OutOfRange Text :=
  versions.foldlM (findHighestStep range) []

/-- `parse` gives no negative numbers, so that `decimal` of the magnitude prints them. -/
def normalize (version : Text) : Except OutOfRange Text := do
  let some v ← parse version | return version
  return decimal v.major.natAbs ++ '.' :: decimal v.minor.natAbs ++ '.' :: decimal v.patch.natAbs ++
    (if v.prerelease = [] then [] else '-' :: v.prerelease) ++
    (if v.build = [] then [] else '+' :: v.build)

end Semver

end ProtoJS.Npm

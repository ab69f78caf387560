import ProtoJS.Npm.HttpDownload
import ProtoJS.Npm.JsonParser
import ProtoJS.Npm.NPMRegistry

/-! # Package metadata

What the registry says about a package, read from its JSON. The cache of `fetchPackage` returns an
earlier answer for a while; the answer of the registry does not change here, so it is left out.
-/

namespace ProtoJS.Npm

open Strings OrderedMap

/-- `PackageVersion`. -/
structure PackageVersion where
  version : Text := []
  distTarball : Text := []
  distShasum : Text := []
  dependencies : List (Text × Text) := []
  main : Text := []
  module : Text := []
  type : Text := []
deriving DecidableEq, Repr

namespace JsonValue

variable {δ : Type}

/-- `none` stands for `nullptr`. -/
def get (key : Text) : JsonValue δ → Option (JsonValue δ)
  | .object members => members.lookup key
  | _ => none

def getString (key : Text) (v : JsonValue δ) : Text :=
  match v.get key with
  | some (.string s) => s
  | _ => []

/-- The text of a string, and the empty one for any other value. -/
def stringOrEmpty : JsonValue δ → Text
  | .string s => s
  | _ => []

end JsonValue

namespace NPMRegistry

variable {δ : Type}

def parsePackageVersion (v : JsonValue δ) : PackageVersion where
  version := v.getString "version".toList
  distTarball := ((v.get "dist".toList).map (·.getString "tarball".toList)).getD []
  distShasum := ((v.get "dist".toList).map (·.getString "shasum".toList)).getD []
  dependencies :=
    match v.get "dependencies".toList with
    | some (.object members) => assignAll [] (members.map fun kv => (kv.1, kv.2.stringOrEmpty))
    | _ => []
  main := v.getString "main".toList
  module := v.getString "module".toList
  type := v.getString "type".toList

/-- The versions of the metadata's JSON value. -/
def versionsOf (root : JsonValue δ) : List (Text × PackageVersion) :=
  match root.get "versions".toList with
  | some (.object members) => assignAll [] (members.map fun kv => (kv.1, parsePackageVersion kv.2))
  | _ => []

theorem sorted_versionsOf (root : JsonValue δ) : Sorted (versionsOf root) := by
  unfold versionsOf
  split
  · exact sorted_assignAll sorted_nil
  · exact sorted_nil

def latestOf (root : JsonValue δ) : Text :=
  match root.get "dist-tags".toList with
  | some (.object members) => (JsonValue.object members).getString "latest".toList
  | _ => []

def parsePackageMetadata [Zero δ] (stod : Text → Option δ) (json : Text) :
    PackageMetadata PackageVersion where
  versions := versionsOf (JsonParse stod json)
  latest := latestOf (JsonParse stod json)
  sorted := sorted_versionsOf (JsonParse stod json)

/-- No answer is no metadata. -/
def fetchPackage [Zero δ] (net : Network) (stod : Text → Option δ) (packageName registry : Text) :
    PackageMetadata PackageVersion :=
  let json := httpGet net (registry ++ '/' :: packageName)
  if json = [] then { versions := [], latest := [], sorted := sorted_nil }
  else parsePackageMetadata stod json

/-- The dependencies of a version are the entries of its object, with what is not a string taken
for the empty text. -/
theorem dependencies_parsePackageVersion {v : JsonValue δ} {members : List (Text × JsonValue δ)}
    (listed : v.get "dependencies".toList = some (.object members)) (sorted : Sorted members) :
    (parsePackageVersion v).dependencies = members.map fun kv => (kv.1, kv.2.stringOrEmpty) := by
  have keys : Sorted (members.map fun kv => (kv.1, kv.2.stringOrEmpty)) := by
    rw [Sorted, List.map_map]
    exact sorted
  rw [parsePackageVersion, listed]
  exact assignAll_of_perm keys (List.Perm.refl _)

end NPMRegistry

end ProtoJS.Npm

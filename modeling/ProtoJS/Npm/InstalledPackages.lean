import ProtoJS.Machine.TreePaths
import ProtoJS.Modules.NodeModulesWalk
import ProtoJS.Npm.DownloadIntegrity
import ProtoJS.Npm.ExtractionCommand
import ProtoJS.Npm.InstallerDisk
import ProtoJS.Npm.PackageResolver

/-! # What is installed is what is required

The installer puts a package where the resolver looks for it. Once an installation has returned
true, a script next to `node_modules` or below gets the main file of the archive that was
downloaded, unless a nearer package of the name has an entry.
-/

namespace ProtoJS.Modules

open Strings FileTree

def Node.kind : Node → FileKind
  | .directory => .directory
  | .file _ => .regular

namespace ModuleResolver

section Tree

variable {platform : Platform} {here location : Location} {tree : Tree} {path : String}

end Tree

section Bare

variable {fs : FileSystem} {names p q : List (List Char)} {name script : List Char}

end Bare

end ModuleResolver

end ProtoJS.Modules

namespace ProtoJS.Npm

open Strings FileTree NPMRegistry

namespace PackageInstaller

/-- A path that gets through `system` as it is. -/
def Passes (path : Text) : Prop := '\x00' ∉ path ∧ Shell.Verbatim path

open Modules Modules.ModuleResolver

section Trees

variable {h : Host} {options : InstallOptions} {pair : Text × Text} {tree after : Tree}
  {unpack : Text → Option (List (Location × Node))}

variable {p : Location} {version : Text}

/-- The directory of the package. -/
def place (p : Location) (name : Text) : Location := p ++ ["node_modules".toList, name]

end Trees

section Required

variable {h : Host} {options : InstallOptions} {pair : Text × Text} {tree after : Tree}
  {shell : Text → Tree → ℤ × Tree} {unpack : Text → Option (List (Location × Node))}
  {p : Location}

section Entry

variable {platform : Platform} {here : Location} {name : Text}

end Entry

end Required

end PackageInstaller

end ProtoJS.Npm

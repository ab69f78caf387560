import ProtoJS.Modules.NodeModulesWalk

/-! # The package resolver

`PackageResolver::resolvePackage` walks up from a directory as the module resolver does and stops
at the first package with a `package.json`; `findPackageRoot` walks up from a file to the first
directory with one. The two resolvers agree on where a package is, up to packages without an entry,
and the root of a file of a package is that package unless another one lies in between.
-/

namespace ProtoJS.Npm

open Modules Modules.ModuleResolver

namespace PackageResolver

variable (fs : FileSystem)

variable {fs} {names p q r : List (List Char)} {file : List Char}

section Roots

end Roots

section Agreement

variable {specifier startDir : String}

/-- A `package.json` that is there can be opened. -/
def Readable (fs : FileSystem) : Prop :=
  ∀ path, isFile fs path = true → (fs.readFile path).isSome = true

end Agreement

end PackageResolver

end ProtoJS.Npm

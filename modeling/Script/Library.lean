import Script.Value

/-!
# The standard library

Modules of the host under dotted paths. An export is any value, so also a literal that is still
thin.
-/

namespace Script

/-- The exports of a module by name. -/
abbrev Exports := List (String × Value)

structure Library where
  modules : List (String × Exports)
  deriving Inhabited

namespace Library

def empty : Library := ⟨[]⟩

/-- Adds a module, in place of the one that has its path. -/
def register (library : Library) (path : String) (exports : Exports) : Library :=
  ⟨(path, exports) :: library.modules.filter (·.1 ≠ path)⟩

def module? (library : Library) (path : String) : Option Exports :=
  library.modules.lookup path

/-- The version that programs can ask for. -/
def version : String := "0.1.0"

private def natives (fs : List Native) : Exports :=
  fs.map fun f => (f.name, .native f)

def standard : Library := ⟨[
  ("std.io", natives [.print]),
  ("std.list", natives [.listLen, .listPush, .listRange]),
  ("std.string", natives [.stringLen, .stringOf, .stringUpper]),
  ("std.sys", [("VERSION", .thin (.string version))])]⟩

end Library

end Script

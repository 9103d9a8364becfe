import Script.Eval.Call
import Script.Parse.Program

/-!
# Running modules

The top level of a file runs in the root scope of its machine. It consists of imports, declarations,
assignments and function declarations. An import finds all its names before it binds any of them. A
module of the standard library is looked up; any other module is a file, which runs on a machine of
its own, and the names are taken from its root scope.
-/

namespace Script

def runFunctionDeclaration (name : Identifier) (parameters : List Parameter)
    (returns : Option TypeExpr) (body : Block) (span : Span) : Run Unit := do
  let parameters ← parameters.mapM fun p => do return (p.name, ← resolve? p.ascription)
  let returns ← resolve? returns
  let f ← Run.makeFunction name.name parameters returns body span.start
  Run.declare (← get).active name (.function f) false

/-- Finds the values of the names an import asks for. -/
def findNames (module : String) (find : String → Except Cause (Option Value)) :
    List Identifier → Except Cause (List (Identifier × Value))
  | [] => .ok []
  | name :: names => do
    match ← find name.name with
    | some value => return (name, value) :: (← findNames module find names)
    | none => throw (.importNotFound name.name module)

def findInLibrary (ctx : Context) (module : String) (names : List Identifier) :
    Except Cause (List (Identifier × Value)) :=
  match ctx.library.module? module with
  | some exports => findNames module (fun name => .ok (exports.lookup name)) names
  | none => .error (.moduleNotFound module)

/-- How the failure of a module appears where the module is imported. A fatal error stays itself. -/
def moduleError (module : String) (e : Error) : Error :=
  if e.isFatal then e
  else .ofCause (.moduleFailed module s!"line {e.position.line}: {e.message}")

/-- Runs the top level of a module. -/
abbrev ModuleRunner := Context → List Stmt → Run Unit

/-- Runs a source text, or fails with its first error. -/
def runSource (run : ModuleRunner) (ctx : Context) (source : String) : Run Unit :=
  match parseSource source ctx.file with
  | .ok program => run ctx program.statements
  | .error (e :: _) => Run.fail e
  | .error [] => Run.raise (.panic "parsing failed without an error")

/-- Runs the file that a path leads to. -/
def runFile (run : ModuleRunner) (ctx : Context) (path : String) : Run Unit :=
  match ctx.files.read path with
  | .ok source => runSource run ctx source
  | .error e => Run.raise (.moduleFailed path e.message)

/-- Runs the file of a module on a new machine and finds the names in its root scope. -/
def findInFile (run : ModuleRunner) (ctx : Context) (module : List String)
    (names : List Identifier) : Run (List (Identifier × Value)) := do
  let path := Path.ofModule ctx.file module
  let location ← Run.ofExcept <|
    (ctx.files.canonicalize path).mapError fun _ => .moduleNotFound (dotted module)
  if (← get).world.loading.contains location then
    Run.raise (.circularImport (dotted module))
  let arena ← Run.mapError (moduleError (dotted module)) <|
    Run.whileLoading location <| Run.onNewMachine <|
      runFile run { ctx with file := path } path
  Run.ofExcept (findNames (dotted module) (arena.lookupLocal Arena.root) names)

/-- Binds imported names, in order. -/
def bindNames : List (Identifier × Value) → Run Unit
  | [] => return
  | (name, value) :: rest => do
    Run.declare (← get).active name value false
    bindNames rest

def runImport (run : ModuleRunner) (ctx : Context) (names : List Identifier)
    (module : List String) : Run Unit := do
  let found ←
    if isStandard module then Run.ofExcept (findInLibrary ctx (dotted module) names)
    else findInFile run ctx module names
  bindNames found

/-- Runs a statement at the top level of a module. -/
def runTopLevel (run : ModuleRunner) (call : Caller) (ctx : Context) : Stmt → Run Unit
  | .importNames names module _ => runImport run ctx names module
  | .declaration name constant global ascription value _ =>
    runDeclaration call name constant global ascription value
  | .reassignment name value _ => runReassignment call name value
  | .function name parameters returns body span =>
    runFunctionDeclaration name parameters returns body span
  | stmt => Run.raise (.unexpectedStatement stmt.kind)

def runTopLevels (run : ModuleRunner) (call : Caller) (ctx : Context) : List Stmt → Run Unit
  | [] => return
  | stmt :: stmts => do
    Run.attributed ctx stmt (runTopLevel run call ctx stmt)
    runTopLevels run call ctx stmts

/-- Runs the top level of a module. An import takes one unit of fuel from what the imported module
does. -/
def runModule : Nat → ModuleRunner
  | 0, _, _ => throw .outOfFuel
  | fuel + 1, ctx, stmts => runTopLevels (runModule fuel) (callFunction ctx fuel) ctx stmts

end Script

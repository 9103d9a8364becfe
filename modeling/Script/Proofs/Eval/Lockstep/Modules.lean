import Script.Eval.Program
import Script.Proofs.Eval.Lockstep.Evaluator
import Script.Proofs.Parse.Moved
import Script.Proofs.Scope.Mapped

/-!
# Modules and programs keep in step

The two runs may import from different libraries, as long as these have the same modules with
exports that correspond, and the second may allow more calls where it need not follow the first.
Files and what is in them are the same on both sides. A top level keeps in step however imports do.
What it binds in the root scope are the names of its own statements.
-/

namespace Script

def Identifier.names (names : List Identifier) : Set String :=
  { name | name ∈ names.map Identifier.name }

/-- The names that a statement of a top level itself binds in the active scope. -/
def Stmt.binds : Stmt → Set String
  | .importNames names .. => Identifier.names names
  | .declaration name _ false .. => {name.name}
  | .function name .. => {name.name}
  | _ => ∅

/-- The names that the statements of a top level bind in the active scope. -/
def Stmt.allBinds (stmts : List Stmt) : Set String :=
  { name | ∃ stmt ∈ stmts, name ∈ stmt.binds }

/-! ### Names that are found -/

theorem findNames_cons_eq_ok {module : String} {find : String → Except Cause (Option Value)}
    {name : Identifier} {names : List Identifier} {found : List (Identifier × Value)} :
    findNames module find (name :: names) = .ok found ↔ ∃ value rest,
      find name.name = .ok (some value) ∧ findNames module find names = .ok rest ∧
      found = (name, value) :: rest := by
  rw [findNames]
  rcases find name.name with cause | (_ | value)
  · simp [Bind.bind, Except.bind]
  · simp [Bind.bind, Except.bind]
  · cases findNames module find names <;>
      simp [Bind.bind, Except.bind, Pure.pure, Except.pure, eq_comm]

/-- The names are those asked for, each with the value that is found for it. -/
theorem mem_findNames {module : String} {find : String → Except Cause (Option Value)}
    {names : List Identifier} {found : List (Identifier × Value)}
    (h : findNames module find names = .ok found) :
    found.map Prod.fst = names ∧ ∀ entry ∈ found, find entry.1.name = .ok (some entry.2) := by
  induction names generalizing found with
  | nil =>
    cases h
    exact ⟨rfl, nofun⟩
  | cons name names ih =>
    obtain ⟨value, rest, hfind, hrest, rfl⟩ := findNames_cons_eq_ok.1 h
    obtain ⟨hnames, hvalues⟩ := ih hrest
    exact ⟨by rw [List.map_cons, hnames], List.forall_mem_cons.2 ⟨hfind, hvalues⟩⟩

theorem findNames_map {φ : Value → Value} {find find' : String → Except Cause (Option Value)}
    (h : ∀ name, find' name = (find name).map (Option.map φ)) (module : String)
    (names : List Identifier) :
    findNames module find' names =
      (findNames module find names).map (List.map (Prod.map id φ)) := by
  induction names with
  | nil => rfl
  | cons name names ih =>
    rw [findNames, findNames, h name.name, ih]
    cases find name.name with
    | error cause => rfl
    | ok value =>
      cases value with
      | none => rfl
      | some value => cases findNames module find names <;> rfl

theorem mem_findInLibrary {ctx : Context} {module : String} {names : List Identifier}
    {found : List (Identifier × Value)} (h : findInLibrary ctx module names = .ok found) :
    found.map Prod.fst = names ∧ ∃ exports, ctx.library.module? module = some exports ∧
      ∀ entry ∈ found, exports.lookup entry.1.name = some entry.2 := by
  unfold findInLibrary at h
  split at h
  · next exports hmodule =>
    obtain ⟨hnames, hvalues⟩ := mem_findNames h
    exact ⟨hnames, exports, hmodule, fun entry hmem => Except.ok.inj (hvalues entry hmem)⟩
  · cases h

/-- Where the names stand that are looked for does not matter. -/
theorem findNames_move (δ : Displacement) (module : String)
    (find : String → Except Cause (Option Value)) (names : List Identifier) :
    findNames module find (names.map (Identifier.move δ)) =
      (findNames module find names).map (List.map (Prod.map (Identifier.move δ) id)) := by
  induction names with
  | nil => rfl
  | cons name names ih =>
    have hname : (name.move δ).name = name.name := rfl
    rw [List.map_cons, findNames, findNames, ih, hname]
    rcases find name.name with cause | (_ | value)
    · rfl
    · rfl
    · cases findNames module find names <;> rfl

/-- The failure of a file may as well be told before the run comes back from it. -/
theorem Run.mapError_whileLoading (f : Error → Error) (location : Location) (inner : Run Unit) :
    mapError f (whileLoading location (onNewMachine inner)) =
      whileLoading location (onNewMachine (mapError f inner)) := by
  funext m
  unfold mapError whileLoading onNewMachine
  dsimp only
  rcases inner _ with _ | ⟨_ | _, _⟩ <;> rfl

/-! ### Whole programs -/

/-- Runs a top level and then the `main` that it leaves. -/
def runProgram (fuel : Nat) (ctx : Context) (topLevel : Run Unit) (m : Machine) :
    Outcome × Machine :=
  match topLevel m with
  | .error stop m => (.ofStop stop, m)
  | .ok _ m =>
    match m.lookupRoot "main" with
    | .error _ => (.failed .missingEntryPoint, m)
    | .ok main =>
      match callMain ctx fuel main m with
      | .error stop m => (.ofStop stop, m)
      | .ok _ m => (.finished, m)

theorem execute_of_parse {ctx : Context} {source : String} {program : Block}
    (h : parseSource source ctx.file = .ok program) (fuel : Nat) (m : Machine) :
    execute fuel ctx source m = runProgram fuel ctx (runModule fuel ctx program.statements) m := by
  rw [execute, h]
  rfl

theorem execute_of_error {ctx : Context} {source : String} {errors : List Error}
    (h : parseSource source ctx.file = .error errors) (fuel : Nat) (m : Machine) :
    execute fuel ctx source m = (.failed (.syntaxErrors errors), m) := by
  rw [execute, h]

namespace Lockstep

/-- What the primitives of a top level must keep on top of those of the evaluator. -/
structure LawfulTopLevels (L : Lockstep) : Prop extends L.Lawful where
  makeFunction : ∀ name parameters returns body position,
    L.Along ∅ (fun f f' => f' = L.function f)
      (Run.makeFunction name parameters returns body position)
      (Run.makeFunction name (parameters.map fun p => (p.1.move L.displacement, p.2)) returns
        (body.move L.displacement) (position.move L.displacement))

/-- How runs stop that load a module. -/
structure ModuleErrors (L : Lockstep) : Prop where
  stops : ∀ {stop stop'}, L.Stops stop stop' → ∀ module,
    L.Stops (stop.mapError (moduleError module)) (stop'.mapError (moduleError module))
  left : ∀ {stop output output'}, L.Left stop output output' → ∀ module,
    L.Left (stop.mapError (moduleError module)) output output'

/-- What the primitives of modules must keep on top of those of a top level. -/
structure LawfulImports (L : Lockstep) : Prop extends L.LawfulTopLevels where
  loading : ∀ {m m'}, L.Rel m m' → m'.world.loading = m.world.loading
  lookupLocal : ∀ {m m'}, L.Rel m m' → ∀ name,
    m'.arena.lookupLocal Arena.root name =
      (m.arena.lookupLocal Arena.root name).map (Option.map L.value)
  enterFile : ∀ {m m'}, L.Rel m m' → ∀ location,
    L.Rel (m.enterFile location) (m'.enterFile location)
  leaveFile : ∀ {m m' n n'} {location : Location}, L.Rel m m' → L.Rel n n' →
    L.Step ∅ (m.enterFile location) n → L.Rel n.leaveFile n'.leaveFile ∧ L.Step ∅ m n.leaveFile
  fresh : ∀ {m m'}, L.Rel m m' → L.Rel m.fresh m'.fresh
  resume : ∀ {m m' n n'}, L.Rel m m' → L.Rel n n' → L.Step .univ m.fresh n →
    L.Rel (m.resume n) (m'.resume n') ∧ L.Step ∅ m (m.resume n)

structure LawfulModules (L : Lockstep) : Prop extends L.LawfulImports where
  moduleErrors : L.ModuleErrors

/-- The program of a text, if it has one, is the same in both runs. -/
def Settles (L : Lockstep) (source : String) : Prop :=
  ∀ file program, parseSource source file = .ok program →
    program.statements.map (Stmt.move L.displacement) = program.statements

def SettlesFiles (L : Lockstep) (files : FileTree) : Prop :=
  ∀ path source, files.read path = .ok source → L.Settles source

/-- The contexts of two runs, the same but for the exports of the library, how many calls are allowed
and how errors are attributed. -/
structure Surroundings (L : Lockstep) (ctx ctx' : Context) : Prop where
  file : ctx'.file = ctx.file
  attributes : L.Attributes ctx ctx'
  limits : L.Limits ctx.maxDepth ctx'.maxDepth
  files : ctx'.files = ctx.files
  exports : ∀ module, ctx'.library.module? module =
    (ctx.library.module? module).map (List.map (Prod.map id L.value))

/-- The contexts of two runs, the same but for the exports of the library. -/
structure Contexts (L : Lockstep) (ctx ctx' : Context) : Prop where
  file : ctx'.file = ctx.file
  debug : ctx'.debug = ctx.debug
  maxDepth : ctx'.maxDepth = ctx.maxDepth
  files : ctx'.files = ctx.files
  exports : ∀ module, ctx'.library.module? module =
    (ctx.library.module? module).map (List.map (Prod.map id L.value))

variable {L : Lockstep} {own : Set String} {m m' : Machine} {ctx ctx' : Context}

theorem ModuleErrors.of_exact [L.Exact] : L.ModuleErrors where
  stops hstops module := by
    rw [Exact.stops] at hstops ⊢
    rw [hstops]
  left hleft := absurd hleft (Faithful.not_left _ _ _)

theorem LawfulModules.of_exact [L.Exact] (hL : L.LawfulImports) : L.LawfulModules :=
  ⟨hL, .of_exact⟩

theorem settles_of_unmoved (hδ : L.displacement = .id) (source : String) : L.Settles source :=
  fun _ _ _ => by rw [hδ, Stmt.move_id_eq, List.map_id]

theorem settlesFiles_of_unmoved (hδ : L.displacement = .id) (files : FileTree) :
    L.SettlesFiles files :=
  fun _ _ _ => settles_of_unmoved hδ _

theorem Contexts.surroundings [L.Exact] (h : L.Contexts ctx ctx') : L.Surroundings ctx ctx' :=
  ⟨h.file, .of_debug h.debug, .inl h.maxDepth, h.files, h.exports⟩

/-- The context may be the same if every value stands for itself. -/
theorem Contexts.of_value (hvalue : L.value = id) (ctx : Context) : L.Contexts ctx ctx where
  file := rfl
  debug := rfl
  maxDepth := rfl
  files := rfl
  exports _ := by rw [hvalue, Prod.map_id, List.map_id_fun, Option.map_id_apply]

theorem Surroundings.of_value (hvalue : L.value = id) {debug : Bool}
    (h : L.Attributes ctx { ctx with debug }) : L.Surroundings ctx { ctx with debug } :=
  ⟨rfl, h, .inl rfl, rfl, (Contexts.of_value hvalue ctx).exports⟩

theorem Surroundings.withFile (h : L.Surroundings ctx ctx') (file : String) :
    L.Surroundings { ctx with file } { ctx' with file } :=
  ⟨rfl, ⟨h.attributes.stops, h.attributes.left⟩, h.limits, h.files, h.exports⟩

/-- The names are those asked for, and the values correspond. -/
def Found (L : Lockstep) (names : List Identifier) (found found' : List (Identifier × Value)) :
    Prop :=
  found' = found.map (Prod.map (Identifier.move L.displacement) L.value) ∧
    found.map Prod.fst = names

/-- The arenas have values that correspond in their root scopes. -/
def Rooted (L : Lockstep) (arena arena' : Arena) : Prop :=
  ∀ name, arena'.lookupLocal Arena.root name =
    (arena.lookupLocal Arena.root name).map (Option.map L.value)

/-- Where values are found that correspond, names are found with such values. -/
theorem findNames {find find' : String → Except Cause (Option Value)}
    (h : ∀ name, find' name = (find name).map (Option.map L.value)) (module : String)
    (names : List Identifier) :
    Script.findNames module find' (names.map (Identifier.move L.displacement)) =
      (Script.findNames module find names).map
        (List.map (Prod.map (Identifier.move L.displacement) L.value)) := by
  rw [findNames_move, findNames_map h]
  cases Script.findNames module find names with
  | error cause => rfl
  | ok found => exact congrArg Except.ok (List.map_map ..)

theorem findInLibrary (hctx : L.Surroundings ctx ctx') (module : String)
    (names : List Identifier) :
    Script.findInLibrary ctx' module (names.map (Identifier.move L.displacement)) =
      (Script.findInLibrary ctx module names).map
        (List.map (Prod.map (Identifier.move L.displacement) L.value)) := by
  unfold Script.findInLibrary
  rw [hctx.exports]
  cases ctx.library.module? module with
  | none => rfl
  | some exports =>
    exact findNames (fun name => congrArg Except.ok (lookup_map_snd exports L.value name)) _ _

/-- Modules run in step, whatever their files, where the files that they may import are settled. -/
def Modules (L : Lockstep) (run run' : ModuleRunner) : Prop :=
  ∀ ctx ctx', L.Surroundings ctx ctx' → L.SettlesFiles ctx.files → ∀ stmts,
    L.Along .univ Ended (run ctx stmts) (run' ctx' (stmts.map (Stmt.move L.displacement)))

/-- A top level runs in step with the same one at another place if each of its statements does. -/
theorem Steady.runTopLevels_moved (hL : L.Steady) {run run' : ModuleRunner} {call call' : Caller}
    (hctx : L.Attributes ctx ctx') (stmts : List Stmt)
    (hstmts : ∀ stmt ∈ stmts, L.Along stmt.binds Ended (Script.runTopLevel run call ctx stmt)
      (Script.runTopLevel run' call' ctx' (stmt.move L.displacement))) :
    L.Along (Stmt.allBinds stmts) Ended (Script.runTopLevels run call ctx stmts)
      (Script.runTopLevels run' call' ctx' (stmts.map (Stmt.move L.displacement))) := by
  induction stmts with
  | nil => exact fun m m' hm => hL.pure hm trivial
  | cons stmt stmts ih =>
    rw [List.forall_mem_cons] at hstmts
    have hfirst : stmt.binds ⊆ Stmt.allBinds (stmt :: stmts) :=
      fun _ hmem => ⟨stmt, List.mem_cons_self, hmem⟩
    have hrest : Stmt.allBinds stmts ⊆ Stmt.allBinds (stmt :: stmts) :=
      fun _ ⟨stmt, hmem, hbinds⟩ => ⟨stmt, List.mem_cons_of_mem _ hmem, hbinds⟩
    intro m m' hm
    exact hL.bind (Q := Ended) (hL.weaken ((hstmts.1 m m' hm).attributed hctx) hfirst)
      fun _ _ m m' hm _ => hL.weaken (ih hstmts.2 m m' hm) hrest

theorem Steady.runTopLevels [L.Exact] (hL : L.Steady) {run run' : ModuleRunner}
    {call call' : Caller} (hdebug : ctx'.debug = ctx.debug) (stmts : List Stmt)
    (hstmts : ∀ stmt ∈ stmts, L.Along stmt.binds Ended (Script.runTopLevel run call ctx stmt)
      (Script.runTopLevel run' call' ctx' stmt)) :
    L.Along (Stmt.allBinds stmts) Ended (Script.runTopLevels run call ctx stmts)
      (Script.runTopLevels run' call' ctx' stmts) := by
  have hmoved : ∀ stmt ∈ stmts, L.Along stmt.binds Ended (Script.runTopLevel run call ctx stmt)
      (Script.runTopLevel run' call' ctx' (stmt.move L.displacement)) := by
    simpa only [Exact.displacement, Stmt.move_id] using hstmts
  have hruns := hL.runTopLevels_moved (.of_debug hdebug) stmts hmoved
  rwa [Exact.displacement, Stmt.move_id_eq, List.map_id] at hruns

namespace LawfulTopLevels

variable (hL : L.LawfulTopLevels)

include hL

theorem mapM {f : α → Run β} {f' : α' → Run β} {g : α → α'} {h : β → β}
    (hf : ∀ a, L.Along ∅ (fun b b' => b' = h b) (f a) (f' (g a))) (as : List α) :
    L.Along ∅ (fun bs bs' => bs' = bs.map h) (as.mapM f) ((as.map g).mapM f') := by
  induction as with
  | nil => exact fun m m' hm => hL.pure hm rfl
  | cons a as ih =>
    intro m m' hm
    rw [List.map_cons, List.mapM_cons, List.mapM_cons]
    refine hL.bind (hf a m m' hm) fun b b' m m' hm hb => ?_
    refine hL.bind (ih m m' hm) fun bs bs' m m' hm hbs => ?_
    exact hL.pure hm (by rw [hb, hbs, List.map_cons])

theorem runFunctionDeclaration (name : Identifier) (parameters : List Parameter)
    (returns : Option TypeExpr) (body : Block) (span : Span) :
    L.Along {name.name} Ended (Script.runFunctionDeclaration name parameters returns body span)
      (Script.runFunctionDeclaration (name.move L.displacement)
        (parameters.map (Parameter.move L.displacement))
        (returns.map (TypeExpr.move L.displacement)) (body.move L.displacement)
        (span.move L.displacement)) := by
  intro m m' hm
  have hparameter (p : Parameter) :
      L.Along ∅ (fun p p' => p' = (p.1.move L.displacement, p.2))
        (do return (p.name, ← Script.resolve? p.ascription))
        (do
          let p := p.move L.displacement
          return (p.name, ← Script.resolve? p.ascription)) := by
    intro m m' hm
    dsimp only [Parameter.move]
    rw [resolve?_move]
    exact hL.bind (hL.resolve? p.ascription m m' hm) fun _ _ m m' hm hsame =>
      hL.pure hm (by rw [hsame])
  rw [Script.runFunctionDeclaration, Script.runFunctionDeclaration, resolve?_move]
  refine hL.bind (hL.widen (hL.mapM hparameter parameters m m' hm))
    fun parameters _ m m' hm hsame => ?_
  subst hsame
  refine hL.bind (hL.widen (hL.resolve? returns m m' hm))
    fun _ returns m m' hm hsame => ?_
  subst hsame
  refine hL.bind (hL.widen (hL.makeFunction _ _ _ _ _ m m' hm))
    fun f f' m m' hm hmade => .get ?_
  subst hmade
  have hdeclare := hL.declare hm name (.function f) false
  rw [hL.transparent.function] at hdeclare
  exact hdeclare

theorem bindNames (found : List (Identifier × Value)) :
    L.Along (Identifier.names (found.map Prod.fst)) Ended (Script.bindNames found)
      (Script.bindNames (found.map (Prod.map (Identifier.move L.displacement) L.value))) := by
  induction found with
  | nil => exact fun m m' hm => hL.pure hm trivial
  | cons entry found ih =>
    have hfirst : {entry.1.name} ⊆ Identifier.names ((entry :: found).map Prod.fst) := by
      simp [Identifier.names]
    have hrest : Identifier.names (found.map Prod.fst) ⊆
        Identifier.names ((entry :: found).map Prod.fst) :=
      fun _ hmem => List.mem_cons_of_mem _ hmem
    intro m m' hm
    exact .get (hL.bind (hL.weaken (hL.declare hm entry.1 entry.2 false) hfirst)
      fun _ _ m m' hm _ => hL.weaken (ih m m' hm) hrest)

theorem bindFound {names : List Identifier} {found found' : List (Identifier × Value)}
    (h : L.Found names found found') :
    L.Along (Identifier.names names) Ended (Script.bindNames found) (Script.bindNames found') := by
  obtain ⟨rfl, rfl⟩ := h
  exact hL.bindNames found

/-- An import runs in step if the search in files does. -/
theorem runImport_moved {run run' : ModuleRunner} (hctx : L.Surroundings ctx ctx')
    {module : List String} {names : List Identifier}
    (hfind : L.Along ∅ (L.Found names) (Script.findInFile run ctx module names)
      (Script.findInFile run' ctx' module (names.map (Identifier.move L.displacement)))) :
    L.Along (Identifier.names names) Ended (Script.runImport run ctx names module)
      (Script.runImport run' ctx' (names.map (Identifier.move L.displacement)) module) := by
  intro m m' hm
  rw [Script.runImport, Script.runImport]
  split
  · rw [findInLibrary hctx]
    exact hL.bind (Q := L.Found names)
      (hL.ofExcept hm fun _ hfound => ⟨rfl, (mem_findInLibrary hfound).1⟩)
      fun found found' m m' hm hfound => hL.bindFound hfound m m' hm
  · exact hL.bind (hL.widen (hfind m m' hm))
      fun found found' m m' hm hfound => hL.bindFound hfound m m' hm

theorem runImport [L.Exact] {run run' : ModuleRunner} (hctx : L.Surroundings ctx ctx')
    {module : List String} {names : List Identifier}
    (hfind : L.Along ∅ (L.Found names) (Script.findInFile run ctx module names)
      (Script.findInFile run' ctx' module names)) :
    L.Along (Identifier.names names) Ended (Script.runImport run ctx names module)
      (Script.runImport run' ctx' names module) := by
  have hmoved : L.Along ∅ (L.Found names) (Script.findInFile run ctx module names)
      (Script.findInFile run' ctx' module (names.map (Identifier.move L.displacement))) := by
    rwa [Exact.displacement, Identifier.move_id_eq, List.map_id]
  have hruns := hL.runImport_moved hctx hmoved
  rwa [Exact.displacement, Identifier.move_id_eq, List.map_id] at hruns

/-- A statement of a top level runs in step with the same one at another place if it does as an
import. -/
theorem runTopLevel_moved {run run' : ModuleRunner} {call call' : Caller}
    (hcall : L.Calls call call') (stmt : Stmt)
    (himport : ∀ names module span, stmt = .importNames names module span →
      L.Along (Identifier.names names) Ended (Script.runImport run ctx names module)
        (Script.runImport run' ctx' (names.map (Identifier.move L.displacement)) module)) :
    L.Along stmt.binds Ended (Script.runTopLevel run call ctx stmt)
      (Script.runTopLevel run' call' ctx' (stmt.move L.displacement)) := by
  intro m m' hm
  cases stmt with
  | importNames names module span =>
    rw [Stmt.move]
    exact himport names module span rfl m m' hm
  | declaration name constant global ascription value span =>
    rw [Stmt.move]
    have hdeclaration := hL.runDeclaration hcall name constant global ascription value m m' hm
    cases global <;> exact hdeclaration
  | reassignment name value span =>
    rw [Stmt.move]
    exact hL.runReassignment hcall name value m m' hm
  | function name parameters returns body span =>
    rw [Stmt.move]
    exact hL.runFunctionDeclaration name parameters returns body span m m' hm
  | _ =>
    rw [Stmt.move]
    exact hL.raise hm _

theorem runTopLevel [L.Exact] {run run' : ModuleRunner} {call call' : Caller}
    (hcall : L.Calls call call') (stmt : Stmt)
    (himport : ∀ names module span, stmt = .importNames names module span →
      L.Along (Identifier.names names) Ended (Script.runImport run ctx names module)
        (Script.runImport run' ctx' names module)) :
    L.Along stmt.binds Ended (Script.runTopLevel run call ctx stmt)
      (Script.runTopLevel run' call' ctx' stmt) := by
  have hmoved : ∀ names module span, stmt = .importNames names module span →
      L.Along (Identifier.names names) Ended (Script.runImport run ctx names module)
        (Script.runImport run' ctx' (names.map (Identifier.move L.displacement)) module) := by
    simpa only [Exact.displacement, Identifier.move_id_eq, List.map_id] using himport
  have hruns := hL.runTopLevel_moved hcall stmt hmoved
  rwa [Exact.displacement, Stmt.move_id] at hruns

omit hL in
theorem callMain_function (ctx : Context) (fuel : Nat) (f : UserFunction) :
    Script.callMain ctx fuel (.function f) =
      (Script.callFunction ctx fuel f [.list [.string ctx.file]]).attributedTo ctx .function
        f.position :=
  rfl

omit hL in
theorem callMain_of_ne {main : Value} (h : ∀ f, main ≠ .function f) (ctx : Context) (fuel : Nat) :
    Script.callMain ctx fuel main =
      Script.callValue (Script.callFunction ctx fuel) main [.list [.string ctx.file]] := by
  cases main with
  | function f => exact absurd rfl (h f)
  | _ => rfl

omit hL in
theorem value_ne_function {δ : Displacement} (hφ : Transparent L.number L.value δ) {main : Value}
    (h : ∀ f, main ≠ .function f) (f : UserFunction) : L.value main ≠ .function f := by
  intro heq
  have htype := hφ.typeOf main
  rw [heq] at htype
  cases main with
  | function g => exact h g rfl
  | native g => cases (hφ.native g).symm.trans heq
  | thin literal => cases literal <;> cases htype
  | _ => cases htype

theorem callMain (hctx : L.Surroundings ctx ctx') (fuel : Nat) (main : Value) :
    L.Along ∅ L.Valued (Script.callMain ctx fuel main)
      (Script.callMain ctx' fuel (L.value main)) := by
  have hφ := hL.transparent
  have hpromoted : ∀ value ∈ [Value.list [.string ctx.file]], value.promote = value := by
    simp [Value.promote]
  have harguments : [Value.list [.string ctx.file]].map L.value = [.list [.string ctx'.file]] := by
    rw [List.map_cons, List.map_nil, hφ.list, List.map_cons, List.map_nil, hφ.string, hctx.file]
  have hfunction := hL.callFunction_within hctx.attributes hctx.limits fuel
  by_cases hmain : ∃ f, main = .function f
  · obtain ⟨f, rfl⟩ := hmain
    intro m m' hm
    have hcall := hfunction f _ hpromoted m m' hm
    rw [harguments] at hcall
    rw [hφ.function, callMain_function, callMain_function]
    exact hcall.attributedTo hctx.attributes .function f.position
  · have hne : ∀ f, main ≠ .function f := fun f heq => hmain ⟨f, heq⟩
    rw [callMain_of_ne hne, callMain_of_ne (value_ne_function hφ hne), ← harguments]
    exact hL.callValue hfunction main hpromoted

end LawfulTopLevels

/-- How two programs end that have kept in step to the end. -/
inductive Outcomes (L : Lockstep) : Outcome → Outcome → Prop
  | refused (errors : List Error) :
    Outcomes L (.failed (.syntaxErrors errors)) (.failed (.syntaxErrors errors))
  | missing : Outcomes L (.failed .missingEntryPoint) (.failed .missingEntryPoint)
  | finished : Outcomes L .finished .finished
  | stopped {stop stop' : Stop} (hstops : L.Stops stop stop') :
    Outcomes L (.ofStop stop) (.ofStop stop')

/-- How two programs end that have kept in step from `m`. -/
inductive Ends (L : Lockstep) (m : Machine) : Outcome × Machine → Outcome × Machine → Prop
  | met {run run' : Outcome × Machine} (houtcomes : L.Outcomes run.1 run'.1)
      (hrel : L.Rel run.2 run'.2) (hstep : L.Step .univ m run.2) : Ends L m run run'
  | gone {stop : Stop} {n : Machine} {run' : Outcome × Machine} (hgone : L.Gone n.raised) :
    Ends L m (.ofStop stop, n) run'
  | left {stop' : Stop} {n' : Machine} {run : Outcome × Machine}
      (hleft : L.Left stop' n'.world.output run.2.world.output) : Ends L m run (.ofStop stop', n')

theorem Outcomes.eq (hstops : L.Stops = Eq) {outcome outcome' : Outcome}
    (h : L.Outcomes outcome outcome') : outcome' = outcome := by
  cases h with
  | stopped hstop =>
    rw [hstops] at hstop
    rw [hstop]
  | _ => rfl

/-- Where both programs fail with an error, these go together. -/
theorem Outcomes.stops {outcome outcome' : Outcome} (h : L.Outcomes outcome outcome') {e e' : Error}
    (he : outcome = .failed (.program e)) (he' : outcome' = .failed (.program e')) :
    L.Stops (.failed e) (.failed e') := by
  cases h with
  | @stopped stop stop' hstops =>
    cases stop with
    | outOfFuel => cases he
    | failed _ =>
      cases stop' with
      | outOfFuel => cases he'
      | failed _ =>
        cases he
        cases he'
        exact hstops
  | _ => cases he

theorem Ends.met_of_total [L.Total] [L.Faithful] {run run' : Outcome × Machine}
    (h : L.Ends m run run') :
    L.Outcomes run.1 run'.1 ∧ L.Rel run.2 run'.2 ∧ L.Step .univ m run.2 := by
  cases h with
  | met houtcomes hrel hstep => exact ⟨houtcomes, hrel, hstep⟩
  | gone hgone => exact absurd hgone (Total.not_gone _)
  | left hleft => exact absurd hleft (Faithful.not_left _ _ _)

/-- Where both runs stop in the same ways, they end in the same way unless one has left the other. -/
theorem Ends.same (hstops : L.Stops = Eq) {run run' : Outcome × Machine} (h : L.Ends m run run') :
    (run.1 ≠ .finished ∧ L.Gone run.2.raised) ∨
      (run'.1 = run.1 ∧ L.Rel run.2 run'.2 ∧ L.Step .univ m run.2) ∨
      ∃ stop', run'.1 = .ofStop stop' ∧
        L.Left stop' run'.2.world.output run.2.world.output := by
  cases h with
  | met houtcomes hrel hstep => exact .inr (.inl ⟨houtcomes.eq hstops, hrel, hstep⟩)
  | @gone stop _ _ hgone =>
    refine .inl ⟨?_, hgone⟩
    cases stop <;> nofun
  | left hleft => exact .inr (.inr ⟨_, rfl, hleft⟩)

theorem Ends.exact [L.Exact] {run run' : Outcome × Machine} (h : L.Ends m run run') :
    (run.1 ≠ .finished ∧ L.Gone run.2.raised) ∨
      run'.1 = run.1 ∧ L.Rel run.2 run'.2 ∧ L.Step .univ m run.2 :=
  (h.same Exact.stops).imp_right fun h =>
    h.resolve_right fun ⟨_, _, hleft⟩ => Faithful.not_left _ _ _ hleft

namespace LawfulTopLevels

variable (hL : L.LawfulTopLevels)

include hL

/-- A whole program runs in step if its top level does. -/
theorem runProgram (hctx : L.Surroundings ctx ctx') (fuel : Nat) {x x' : Run Unit}
    (hx : L.At .univ Ended x x' m m') :
    L.Ends m (Script.runProgram fuel ctx x m) (Script.runProgram fuel ctx' x' m') := by
  cases hx with
  | of_gone hx hgone =>
    rw [Script.runProgram, hx]
    exact .gone hgone
  | of_stop hx hx' hrel hstep hstops =>
    rw [Script.runProgram, Script.runProgram, hx, hx']
    exact .met (.stopped hstops) hrel hstep
  | @of_left stop' n n' hgoes hx' hleft =>
    have hleft' : Script.runProgram fuel ctx' x' m' = (.ofStop stop', n') := by
      rw [Script.runProgram, hx']
    rw [hleft']
    cases hgoes with
    | of_error hx _ _ =>
      rw [Script.runProgram, hx]
      exact .left hleft
    | of_ok hx hrel _ _ =>
      rw [Script.runProgram, hx]
      dsimp only
      cases n.lookupRoot "main" with
      | error cause => exact .left hleft
      | ok main =>
        obtain ⟨k, hk⟩ | ⟨stop, k, hy, hgone⟩ := (hL.callMain hctx fuel main n _ hrel).goes
        · have hleft := hL.left hleft hk.step
          cases hk with
          | of_ok hy _ _ _ =>
            dsimp only
            rw [hy]
            exact .left hleft
          | of_error hy _ _ =>
            dsimp only
            rw [hy]
            exact .left hleft
        · dsimp only
          rw [hy]
          exact .gone hgone
  | @of_ok _ _ n n' hx hx' hrel hstep _ =>
    rw [Script.runProgram, Script.runProgram, hx, hx']
    dsimp only
    have hmain : n'.lookupRoot "main" = (n.lookupRoot "main").map L.value :=
      hL.lookup hrel Arena.root "main"
    rw [hmain]
    cases n.lookupRoot "main" with
    | error cause => exact .met .missing hrel hstep
    | ok main =>
      have hafter {k : Machine} (hcall : L.Step ∅ n k) : L.Step .univ m k :=
        hL.trans hstep (hL.mono (Set.empty_subset _) hcall)
      cases hL.callMain hctx fuel main n n' hrel with
      | of_gone hy hgone =>
        simp only [Except.map, hy]
        exact .gone hgone
      | of_ok hy hy' hrel hcall _ =>
        simp only [Except.map, hy, hy']
        exact .met .finished hrel (hafter hcall)
      | of_stop hy hy' hrel hcall hstops =>
        simp only [Except.map, hy, hy']
        exact .met (.stopped hstops) hrel (hafter hcall)
      | of_left hgoes hy' hleft =>
        simp only [Except.map, hy']
        cases hgoes with
        | of_ok hy _ _ _ =>
          simp only [hy]
          exact .left hleft
        | of_error hy _ _ =>
          simp only [hy]
          exact .left hleft

/-- A whole text runs in step if its top level does. -/
theorem ends (hctx : L.Surroundings ctx ctx') {fuel : Nat} {source : String}
    (hrun : ∀ program, parseSource source ctx.file = .ok program →
      L.At .univ Ended (Script.runModule fuel ctx program.statements)
        (Script.runModule fuel ctx' program.statements) m m') (hm : L.Rel m m') :
    L.Ends m (Script.execute fuel ctx source m) (Script.execute fuel ctx' source m') := by
  cases hparse : parseSource source ctx.file with
  | error errors =>
    rw [execute_of_error hparse, execute_of_error (hctx.file ▸ hparse)]
    exact .met (.refused errors) hm hL.stay
  | ok program =>
    rw [execute_of_parse hparse, execute_of_parse (hctx.file ▸ hparse)]
    exact hL.runProgram hctx fuel (hrun program hparse)

/-- A whole program runs in step if its top level does, and ends the same way on both sides. Or else
the first run has failed where the second need not follow. -/
theorem execute_within [L.Exact] (hctx : L.Surroundings ctx ctx') {fuel : Nat}
    (hrun : ∀ stmts, L.Along .univ Ended (Script.runModule fuel ctx stmts)
      (Script.runModule fuel ctx' stmts)) (source : String) (hm : L.Rel m m') :
    ((Script.execute fuel ctx source m).1 ≠ .finished ∧
        L.Gone (Script.execute fuel ctx source m).2.raised) ∨
      (Script.execute fuel ctx' source m').1 = (Script.execute fuel ctx source m).1 ∧
        L.Rel (Script.execute fuel ctx source m).2 (Script.execute fuel ctx' source m').2 ∧
        L.Step .univ m (Script.execute fuel ctx source m).2 :=
  (hL.ends hctx (fun program _ => hrun program.statements m m' hm) hm).exact

end LawfulTopLevels

namespace LawfulImports

variable (hL : L.LawfulImports)

include hL

theorem whileLoading {Q : α → α → Prop} {location : Location} {inner inner' : Run α}
    (hm : L.Rel m m')
    (hinner : L.At ∅ Q inner inner' (m.enterFile location) (m'.enterFile location)) :
    L.At ∅ Q (Run.whileLoading location inner) (Run.whileLoading location inner') m m' :=
  .bracket rfl rfl (fun _ => Machine.raised_step ..) (fun _ => rfl) (fun _ => rfl) hinner
    fun _ _ hrel hstep => hL.leaveFile hm hrel hstep

theorem onNewMachine {inner inner' : Run Unit} (hm : L.Rel m m')
    (hinner : L.At .univ Ended inner inner' m.fresh m'.fresh) :
    L.At ∅ L.Rooted (Run.onNewMachine inner) (Run.onNewMachine inner') m m' := by
  cases hinner with
  | of_ok hx hx' hrel hstep h =>
    obtain ⟨hback, hstep⟩ := hL.resume hm hrel hstep
    exact .of_ok (by rw [Run.onNewMachine, hx]) (by rw [Run.onNewMachine, hx']) hback hstep
      (hL.lookupLocal hrel)
  | of_stop hx hx' hrel hstep hstops =>
    obtain ⟨hback, hstep⟩ := hL.resume hm hrel hstep
    exact .of_stop (by rw [Run.onNewMachine, hx]) (by rw [Run.onNewMachine, hx']) hback hstep hstops
  | of_gone hx hgone =>
    exact .of_gone (by rw [Run.onNewMachine, hx]) (by rwa [Machine.raised_resume])
  | @of_left stop' n n' hgoes hx' hleft =>
    have hx' : Run.onNewMachine inner' m' = .error stop' (m'.resume n') := by
      rw [Run.onNewMachine, hx']
    cases hgoes with
    | of_ok hx hrel hstep h =>
      obtain ⟨hback, hstep⟩ := hL.resume hm hrel hstep
      exact .of_left (.of_ok (by rw [Run.onNewMachine, hx]) hback hstep (hL.lookupLocal hrel)) hx'
        hleft
    | of_error hx hrel hstep =>
      obtain ⟨hback, hstep⟩ := hL.resume hm hrel hstep
      exact .of_left (.of_error (by rw [Run.onNewMachine, hx]) hback hstep) hx' hleft

/-- A search for names in a file goes in step if the run of the file does from new machines, with its
failure as it appears where the module is imported. -/
theorem findInFile {run run' : ModuleRunner} (hctx : L.Surroundings ctx ctx')
    (module : List String) (names : List Identifier)
    (hfile : ∀ m m', L.Rel m m' → L.At .univ Ended
      (Run.mapError (moduleError (dotted module)) <| Script.runFile run
        { ctx with file := Path.ofModule ctx.file module } (Path.ofModule ctx.file module))
      (Run.mapError (moduleError (dotted module)) <| Script.runFile run'
        { ctx' with file := Path.ofModule ctx.file module } (Path.ofModule ctx.file module))
      m.fresh m'.fresh) :
    L.Along ∅ (L.Found names) (Script.findInFile run ctx module names)
      (Script.findInFile run' ctx' module (names.map (Identifier.move L.displacement))) := by
  intro m m' hm
  rw [Script.findInFile, Script.findInFile]
  dsimp only
  rw [hctx.file]
  refine hL.bind (hL.ofExcept_same hm (by rw [hctx.files]))
    fun _ location m m' hm hsame => ?_
  subst hsame
  refine .get ?_
  rw [hL.loading hm, Run.mapError_whileLoading, Run.mapError_whileLoading]
  split
  · exact hL.bind (Q := fun _ _ => False) (hL.raise hm _)
      fun _ _ _ _ _ h => h.elim
  · have hfound := hL.whileLoading hm
      (hL.onNewMachine (hL.enterFile hm location) (hfile _ _ (hL.enterFile hm location)))
    refine hL.bind hfound fun arena arena' m m' hm harena => ?_
    rw [findNames harena]
    exact hL.ofExcept hm fun _ hfound => ⟨rfl, (mem_findNames hfound).1⟩

end LawfulImports

namespace LawfulModules

variable (hL : L.LawfulModules)

include hL

section

variable {run run' : ModuleRunner} (hrun : L.Modules run run') (hctx : L.Surroundings ctx ctx')
  (hfiles : L.SettlesFiles ctx.files)

include hrun hctx hfiles

theorem runFile (path : String) :
    L.Along .univ Ended (Script.runFile run ctx path) (Script.runFile run' ctx' path) := by
  intro m m' hm
  rw [Script.runFile, Script.runFile, hctx.files]
  cases hread : ctx.files.read path with
  | error e => exact hL.raise hm _
  | ok source =>
    dsimp only
    rw [Script.runSource, Script.runSource, hctx.file]
    rcases hparse : parseSource source ctx.file with (_ | ⟨e, _⟩) | program
    · exact hL.raise hm _
    · exact hL.fail hm (statement_of_parseSource hparse e List.mem_cons_self)
    · have hprogram := hrun ctx ctx' hctx hfiles program.statements
      rw [hfiles _ _ hread _ _ hparse] at hprogram
      exact hprogram m m' hm

theorem findInFile (module : List String) (names : List Identifier) :
    L.Along ∅ (L.Found names) (Script.findInFile run ctx module names)
      (Script.findInFile run' ctx' module (names.map (Identifier.move L.displacement))) :=
  hL.toLawfulImports.findInFile hctx module names fun m m' hm =>
    (hL.runFile hrun (hctx.withFile (Path.ofModule ctx.file module)) hfiles _ m.fresh m'.fresh
      (hL.fresh hm)).mapError
      (fun h => hL.moduleErrors.stops h _) fun h => hL.moduleErrors.left h _

end

theorem runModule_moved (fuel : Nat) :
    L.Modules (Script.runModule fuel) (Script.runModule fuel) := by
  induction fuel with
  | zero => exact fun ctx ctx' hctx hfiles stmts m m' hm => hL.outOfFuel hm
  | succ fuel ih =>
    intro ctx ctx' hctx hfiles stmts m m' hm
    have hcall := hL.callFunction_within hctx.attributes hctx.limits fuel
    have hstmts := hL.runTopLevels_moved hctx.attributes stmts fun stmt _ =>
      hL.runTopLevel_moved hcall stmt fun names module _ _ =>
        hL.runImport_moved hctx (hL.findInFile ih hctx hfiles module names)
    exact hL.weaken (hstmts m m' hm) (Set.subset_univ _)

theorem runModule [L.Exact] (fuel : Nat) (ctx ctx' : Context) (hctx : L.Surroundings ctx ctx')
    (stmts : List Stmt) :
    L.Along .univ Ended (Script.runModule fuel ctx stmts) (Script.runModule fuel ctx' stmts) := by
  have hmoved := hL.runModule_moved fuel ctx ctx' hctx
    (settlesFiles_of_unmoved Exact.displacement _) stmts
  rwa [Exact.displacement, Stmt.move_id_eq, List.map_id] at hmoved

/-- A whole program runs in step. -/
theorem execute_ends (hctx : L.Surroundings ctx ctx') (hfiles : L.SettlesFiles ctx.files)
    (fuel : Nat) {source : String} (hsource : L.Settles source) (hm : L.Rel m m') :
    L.Ends m (Script.execute fuel ctx source m) (Script.execute fuel ctx' source m') := by
  refine hL.ends hctx (fun program hparse => ?_) hm
  have hrun := hL.runModule_moved fuel ctx ctx' hctx hfiles program.statements m m' hm
  rwa [hsource _ _ hparse] at hrun

/-- A whole program runs in step, and ends the same way on both sides. -/
theorem execute [L.Total] [L.Exact] (hctx : L.Contexts ctx ctx') (fuel : Nat) (source : String)
    (hm : L.Rel m m') :
    (Script.execute fuel ctx' source m').1 = (Script.execute fuel ctx source m).1 ∧
      L.Rel (Script.execute fuel ctx source m).2 (Script.execute fuel ctx' source m').2 ∧
      L.Step .univ m (Script.execute fuel ctx source m).2 :=
  have hrun := hL.runModule fuel ctx ctx' hctx.surroundings
  (hL.execute_within hctx.surroundings hrun source hm).resolve_left fun h => Total.not_gone _ h.2

end LawfulModules

end Lockstep

end Script

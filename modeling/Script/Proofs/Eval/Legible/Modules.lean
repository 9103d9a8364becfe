import Script.Proofs.Eval.Legible

/-!
# Errors of modules and programs are legible

A file is read before it is run, so its functions have operators on one line, as those have that it
imports from other files. The error of a file that cannot be loaded is part of a new message, which
is as legible as the error was.
-/

namespace Script

variable {ctx : Context} {run : ModuleRunner}

theorem tells_runFunctionDeclaration (name : Identifier) (parameters : List Parameter)
    (returns : Option TypeExpr) {body : Block} (h : body.Legible) (span : Span) :
    (runFunctionDeclaration name parameters returns body span).Tells := by
  have hparameter (p : Parameter) : Run.Tells (do return (p.name, ← resolve? p.ascription)) :=
    .bind (tells_resolve? p.ascription) fun _ _ => .pure trivial
  rw [runFunctionDeclaration]
  refine .bind (.mapM hparameter parameters) fun parameters _ => ?_
  refine .bind (tells_resolve? returns) fun returns _ => ?_
  refine .bind (.makeFunction _ _ _ h _) fun f hf => .get fun _ _ => ?_
  exact .declare _ _ ((Value.over_function f).2 hf) _

/-! ### Imports -/

/-- The values that were found are legible. -/
abbrev FoundLegible (found : List (Identifier × Value)) : Prop :=
  FoundOver { f | f.body.Legible } found

theorem tells_bindNames {found : List (Identifier × Value)} (h : FoundLegible found) :
    (bindNames found).Tells := by
  induction found with
  | nil => exact .pure trivial
  | cons entry found ih =>
    obtain ⟨hentry, hrest⟩ := List.forall_mem_cons.1 h
    exact .get fun _ _ => .bind (.declare _ _ hentry _) fun _ _ => ih hrest

/-- Running a top level keeps what is bound legible. -/
def ModuleRunner.Legible (run : ModuleRunner) : Prop :=
  ∀ ctx stmts, ctx.library.Legible → Stmt.AllLegible stmts → (run ctx stmts).Tells

theorem tells_runSource (hrun : run.Legible) (hlibrary : ctx.library.Legible) (source : String) :
    (runSource run ctx source).Tells := by
  unfold runSource
  split
  · next program hparse => exact hrun ctx _ hlibrary (legible_of_parseSource hparse)
  · next e errors hparse =>
    have hline := (parseSource_reports hparse).2 e List.mem_cons_self
    exact .fail (.inl (e.cause.unbroken_message.1 hline))
  · refine .raise (.inl (show Unbroken "parsing failed without an error" from ?_))
    decide

theorem tells_runFile (hrun : run.Legible) (hlibrary : ctx.library.Legible) (path : String) :
    (runFile run ctx path).Tells := by
  unfold runFile
  split
  · exact tells_runSource hrun hlibrary _
  · next e hread =>
    exact .raise (.inl (ReadError.unbroken_message (FileTree.ne_other_of_read hread)))

theorem legible_moduleError (module : String) {e : Error} (h : e.cause.Legible) :
    (moduleError module e).cause.Legible := by
  unfold moduleError
  split
  · exact h
  · exact Cause.legible_moduleFailed module h

theorem legible_findInFile (hrun : run.Legible) (hlibrary : ctx.library.Legible)
    (module : List String) (names : List Identifier) :
    (findInFile run ctx module names).Legible FoundLegible := by
  have hlocate (result : Except ReadError Location) :
      RefusedAs Cause.Legible (result.mapError fun _ => .moduleNotFound (dotted module)) := by
    cases result with
    | ok location => exact .ok location
    | error e => exact .error (.inl unbroken_empty)
  have hload (location : Location) : (Run.mapError (moduleError (dotted module))
      (Run.whileLoading location (Run.onNewMachine (runModuleFile run ctx module)))).Legible
        Arena.Legible := by
    refine .mapError (.whileLoading location (.onNewMachine ?_)) fun _ => legible_moduleError _
    exact tells_runFile hrun (show (ctx.inside module).library.Legible from hlibrary) _
  have hfind (location : Location) : Run.Legible FoundLegible (do
      let arena ← Run.mapError (moduleError (dotted module)) <|
        Run.whileLoading location (Run.onNewMachine (runModuleFile run ctx module))
      Run.ofExcept (findNames (dotted module) (arena.lookupLocal Arena.root) names)) := by
    refine .bind (hload location) fun arena harena => .ofExcept ?_ fun found hnames entry hmem => ?_
    · exact refused_findNames (fun _ => .inl unbroken_empty)
        (fun _ => arena.legible_lookupLocal _ _) names
    · obtain ⟨constant, hbinding⟩ :=
        Arena.binding?_of_lookupLocal ((mem_findNames hnames).2 entry hmem)
      exact harena.bound _ _ _ hbinding
  unfold findInFile
  refine .bindExcept (hlocate _) fun location => .get fun m _ => ?_
  split
  · exact .bind (Q := fun _ => False) (.raise (.inl unbroken_empty)) fun _ h => h.elim
  · exact hfind location

theorem tells_runImport (hrun : run.Legible) (hlibrary : ctx.library.Legible)
    (names : List Identifier) (module : List String) : (runImport run ctx names module).Tells := by
  rw [runImport_eq]
  refine .bind (Q := FoundLegible) ?_ fun found hfound => tells_bindNames hfound
  unfold findImported
  split
  · refine .ofExcept (plain_findInLibrary ctx _ names).legible fun found hfound entry hmem => ?_
    obtain ⟨-, exports, hmodule, hvalues⟩ := mem_findInLibrary hfound
    exact over_of_mem_exports hmodule (hvalues entry hmem) hlibrary
  · exact legible_findInFile hrun hlibrary module names

/-! ### Top levels -/

theorem tells_runTopLevel (hrun : run.Legible) {call : Caller} (hcall : call.Legible)
    (hlibrary : ctx.library.Legible) {stmt : Stmt} (h : stmt.Legible) :
    (runTopLevel run call ctx stmt).Tells := by
  unfold runTopLevel
  split
  · exact tells_runImport hrun hlibrary _ _
  · exact tells_runDeclaration hcall _ _ _ _ h
  · exact tells_runReassignment hcall _ h
  · exact tells_runFunctionDeclaration _ _ _ h _
  · exact .raise (.inl unbroken_empty)

theorem legible_runModule (fuel : Nat) : ModuleRunner.Legible (runModule fuel) := by
  induction fuel with
  | zero => exact fun _ _ _ _ => .outOfFuel
  | succ fuel ih =>
    intro ctx stmts hlibrary h
    have hcall := legible_callFunction ctx fuel
    rw [runModule]
    induction stmts with
    | nil => exact .pure trivial
    | cons stmt stmts ihs =>
      exact .bind (.attributed (tells_runTopLevel ih hcall hlibrary h.1) ctx stmt) fun _ _ =>
        ihs h.2

/-! ### Programs -/

theorem legible_callMain (ctx : Context) (fuel : Nat) {main : Value} (h : main.Legible) :
    (callMain ctx fuel main).Legible Value.Legible := by
  have hcall : (callValue (callFunction ctx fuel) main [.list [.string ctx.file]]).Legible
      Value.Legible :=
    legible_callValue (legible_callFunction ctx fuel) h (by simp)
  unfold callMain
  split
  · dsimp only
    split
    · exact hcall
    · exact hcall.atStatement _ _
  · exact hcall

/-- A program keeps what is bound legible, and an error that it fails with has a legible message. -/
theorem legible_execute (hlibrary : ctx.library.Legible) (fuel : Nat) (source : String)
    {m : Machine} (hm : m.arena.Legible) :
    (execute fuel ctx source m).2.arena.Legible ∧
      ∀ e, (execute fuel ctx source m).1 = .failed (.program e) → e.cause.Legible := by
  have hstop {stop : Stop} (h : stop.Fails fun e => e.cause.Legible) (e : Error)
      (he : Outcome.ofStop stop = .failed (.program e)) : e.cause.Legible := by
    cases stop with
    | outOfFuel => cases he
    | failed e' =>
      cases he
      exact h e rfl
  have hother {outcome : Outcome} (h : outcome.error? = none) (e : Error)
      (he : outcome = .failed (.program e)) : e.cause.Legible := by
    rw [he] at h
    cases h
  rw [execute]
  split
  · exact ⟨hm, hother rfl⟩
  · next program hparse =>
    have hmodule := legible_runModule fuel ctx program.statements hlibrary
      (legible_of_parseSource hparse)
    split
    · next hrun => exact (hmodule.of_error hm hrun).imp_right hstop
    · next n hrun =>
      have hn := (hmodule.of_ok hm hrun).1
      split
      · exact ⟨hn, hother rfl⟩
      · next main hlookup =>
        have hmain := legible_callMain ctx fuel (hn.bound.lookup hlookup)
        split
        · next hcall => exact (hmain.of_error hn hcall).imp_right hstop
        · next hcall => exact ⟨(hmain.of_ok hn hcall).1, hother rfl⟩

theorem Idle.legible {m : Machine} (h : Idle ctx m) (hlibrary : ctx.library.Legible) :
    m.arena.Legible := by
  induction h with
  | first world =>
    unfold Machine.first
    split <;> exact .withRoot
  | executed fuel source _ ih => exact (legible_execute hlibrary fuel source ih).1

end Script

import Script.Eval.Program
import Script.Proofs.Eval.Evaluator
import Script.Proofs.Parse.Reported

/-!
# Modules and programs keep machines sound

An imported module runs on a machine of its own, of which only its root scope is looked at later.
With that the top level of a module keeps a machine sound, by induction on the fuel that imports
take, and so does a whole program.
-/

namespace Script

open Machine

variable {limit : Nat} {m : Machine}

theorem Keeps.mapM {f : α → Run β} (hf : ∀ a, Keeps limit (f a)) (as : List α) :
    Keeps limit (as.mapM f) := by
  induction as with
  | nil => exact .pure _
  | cons a as ih =>
    rw [List.mapM_cons]
    exact .bind (hf a) fun _ => .bind ih fun _ => .pure _

theorem keeps_runFunctionDeclaration (name : Identifier) (parameters : List Parameter)
    (returns : Option TypeExpr) (body : Block) (span : Span) :
    Keeps limit (runFunctionDeclaration name parameters returns body span) := by
  apply Keeps.bind (.mapM (fun p => .bind (keeps_resolve? _) fun _ => .pure _) _)
  intro parameters
  apply Keeps.bind (keeps_resolve? returns)
  intro returns
  refine .bind (.get fun m hm => ?_) fun f =>
    .get fun m hm => .declare hm hm.linked.isLive_active _ _ _
  exact .andThen hm (.record hm ⟨.refl _, rfl, rfl, rfl, by simp⟩) fun _ => .pure _

theorem keeps_bindNames (found : List (Identifier × Value)) : Keeps limit (bindNames found) := by
  induction found with
  | nil => exact .pure _
  | cons entry found ih =>
    exact .get fun m hm =>
      .andThen hm (.declare hm hm.linked.isLive_active _ _ _) fun _ => ih

section

variable {run : ModuleRunner}

theorem keeps_runSource (hrun : ∀ ctx stmts, ctx.maxDepth = limit → Keeps limit (run ctx stmts))
    {ctx : Context} (hctx : ctx.maxDepth = limit) (source : String) :
    Keeps limit (runSource run ctx source) := by
  rw [runSource]
  split
  · exact hrun _ _ hctx
  · next e _ hparse =>
    have hkind := (parseSource_error hparse).2 e (by simp)
    exact fun m hm => .fail fun hfatal => absurd (of_decide_eq_true hfatal) (by rw [hkind]; nofun)
  · next hparse => exact absurd rfl (parseSource_error hparse).1

theorem keeps_runFile (hrun : ∀ ctx stmts, ctx.maxDepth = limit → Keeps limit (run ctx stmts))
    {ctx : Context} (hctx : ctx.maxDepth = limit) (path : String) :
    Keeps limit (runFile run ctx path) := by
  rw [runFile]
  split
  · exact keeps_runSource hrun hctx _
  · exact .raise nofun

theorem cause_moduleError {module : String} {e : Error} (h : (moduleError module e).isFatal) :
    (moduleError module e).cause = e.cause := by
  unfold moduleError at h ⊢
  split
  · rfl
  · next hnot =>
    rw [if_neg hnot] at h
    cases h

theorem keeps_findInFile (hrun : ∀ ctx stmts, ctx.maxDepth = limit → Keeps limit (run ctx stmts))
    {ctx : Context} (hctx : ctx.maxDepth = limit) (module : List String) (names : List Identifier) :
    Keeps limit (findInFile run ctx module names) := by
  have hlocate : Harmless ((ctx.files.canonicalize (Path.ofModule ctx.file module)).mapError
      fun _ => Cause.moduleNotFound (dotted module)) := by
    cases ctx.files.canonicalize (Path.ofModule ctx.file module) with
    | ok location => exact .ok _
    | error e => exact .error nofun
  have hmodule := keeps_runFile hrun
    (show { ctx with file := Path.ofModule ctx.file module }.maxDepth = limit from hctx)
    (Path.ofModule ctx.file module)
  have hload (location : Location) : Keeps limit (do
      let arena ← Run.mapError (moduleError (dotted module)) <|
        Run.whileLoading location <| Run.onNewMachine <|
          runFile run { ctx with file := Path.ofModule ctx.file module }
            (Path.ofModule ctx.file module)
      Run.ofExcept (findNames (dotted module) (arena.lookupLocal Arena.root) names)) := by
    intro m hm
    refine .bind hm (.mapError (.whileLoading hm fun m hm => .onNewMachine hm hmodule)
      fun _ => cause_moduleError) fun arena m hm hlive => ?_
    exact .ofExcept (harmless_findNames (Arena.harmless_lookupLocal hlive) names)
      fun _ _ => trivial
  apply Keeps.bind (.ofExcept hlocate)
  intro location
  apply Keeps.get
  intro m hm
  split
  · exact .bind (Q := fun _ => False) hm (.raise nofun) fun _ _ _ h => h.elim
  · exact hload location m hm

theorem keeps_runImport (hrun : ∀ ctx stmts, ctx.maxDepth = limit → Keeps limit (run ctx stmts))
    {ctx : Context} (hctx : ctx.maxDepth = limit) (names : List Identifier) (module : List String) :
    Keeps limit (runImport run ctx names module) := by
  rw [runImport]
  split
  · exact .bind (.ofExcept (harmless_findInLibrary _ _ _)) keeps_bindNames
  · exact .bind (keeps_findInFile hrun hctx module names) keeps_bindNames

theorem keeps_runTopLevel (hrun : ∀ ctx stmts, ctx.maxDepth = limit → Keeps limit (run ctx stmts))
    {call : Caller} (hcall : ∀ f arguments, Keeps limit (call f arguments)) {ctx : Context}
    (hctx : ctx.maxDepth = limit) (stmt : Stmt) : Keeps limit (runTopLevel run call ctx stmt) := by
  unfold runTopLevel
  split
  · exact keeps_runImport hrun hctx _ _
  · exact keeps_runDeclaration hcall _ _ _ _ _
  · exact .bind (keeps_evaluate hcall _) fun _ => keeps_reassign _ _
  · exact keeps_runFunctionDeclaration _ _ _ _ _
  · exact .raise nofun

theorem keeps_runTopLevels (hrun : ∀ ctx stmts, ctx.maxDepth = limit → Keeps limit (run ctx stmts))
    {call : Caller} (hcall : ∀ f arguments, Keeps limit (call f arguments)) {ctx : Context}
    (hctx : ctx.maxDepth = limit) (stmts : List Stmt) :
    Keeps limit (runTopLevels run call ctx stmts) := by
  induction stmts with
  | nil => exact .pure _
  | cons stmt stmts ih =>
    exact .bind (fun m hm => .attributed (keeps_runTopLevel hrun hcall hctx stmt m hm)) fun _ => ih

end

theorem keeps_runModule (fuel : Nat) (ctx : Context) (stmts : List Stmt) :
    Keeps ctx.maxDepth (runModule fuel ctx stmts) := by
  induction fuel generalizing ctx stmts with
  | zero => exact fun _ _ => .outOfFuel
  | succ fuel ih =>
    exact keeps_runTopLevels (fun ctx' stmts hctx => hctx ▸ ih ctx' stmts)
      (keeps_callFunction ctx fuel) rfl stmts

theorem keeps_callMain (ctx : Context) (fuel : Nat) (main : Value) :
    Keeps ctx.maxDepth (callMain ctx fuel main) := by
  have hcall := keeps_callValue (keeps_callFunction ctx fuel) main [.list [.string ctx.file]]
  unfold callMain
  split
  · dsimp only
    split
    · exact hcall
    · intro m hm
      apply KeepsAt.mapError (hcall m hm)
      intro e _
      rw [Error.atStatement]
      split <;> rfl
  · exact hcall

/-- A whole program comes back to where it started, and only `print` makes it fail fatally. -/
theorem passes_execute (fuel : Nat) (ctx : Context) (source : String)
    (hm : m.now.Sound ctx.maxDepth) :
    Passes ctx.maxDepth m (execute fuel ctx source m).2 ∧
      ∀ e, (execute fuel ctx source m).1 = .failed (.program e) →
        (Stop.failed e).Excused (execute fuel ctx source m).2.world.output := by
  have hstop {stop : Stop} {output : Sink} (h : stop.Excused output) (e : Error)
      (hfailed : Outcome.ofStop stop = .failed (.program e)) : (Stop.failed e).Excused output := by
    cases stop with
    | failed e' =>
      simp only [Outcome.ofStop, Outcome.failed.injEq, Failure.program.injEq] at hfailed
      exact hfailed ▸ h
    | outOfFuel => cases hfailed
  rw [execute]
  split
  · exact ⟨.refl m, nofun⟩
  · next program _ =>
    have hmodule := keeps_runModule fuel ctx program.statements m hm
    split
    · next stop m' hrun => exact ⟨hmodule.passes_of_error hrun, hstop (hmodule.excused hrun)⟩
    · next m' hrun =>
      have hpasses := hmodule.passes_of_ok hrun
      split
      · exact ⟨hpasses, nofun⟩
      · next main _ =>
        have hmain := keeps_callMain ctx fuel main m' (hpasses.sound hm)
        split
        · next stop m'' hcall =>
          exact ⟨hpasses.trans (hmain.passes_of_error hcall), hstop (hmain.excused hcall)⟩
        · next m'' hcall => exact ⟨hpasses.trans (hmain.passes_of_ok hcall), nofun⟩

end Script

import Script.Proofs.Eval.Exports
import Script.Proofs.Eval.Provenance

/-!
# Where the functions of modules come from

Modules make functions, and pass them on to each other. What an import binds is from the library or
from the root scope of a file that has been run, and the functions that this run has made stay known
when it is over. So at every moment of a program the functions in what is bound are from the library
or were made before.
-/

namespace Script

open Lockstep Machine

section

variable {library : Library} {m n : Machine}

theorem Run.Grounded.mapM {f : α → Run β} (hf : ∀ a, (f a).Grounded library) (as : List α) :
    (as.mapM f).Grounded library := by
  induction as with
  | nil => exact fun m hm => .pure hm trivial
  | cons a as ih =>
    rw [List.mapM_cons]
    exact fun m hm => .bind (hf a m hm) fun _ n hleads _ =>
      .bind (ih n hleads.grounded) fun _ _ hleads _ => .pure hleads.grounded trivial

theorem grounds_makeFunction (hm : m.now.Grounded library) (name : String)
    (parameters : List (Identifier × Option DeclaredType)) (returns : Option DeclaredType)
    (body : Block) (position : Position) :
    Grounds library (fun K f => f ∈ K)
      (Run.makeFunction name parameters returns body position) m := by
  refine .of_ok rfl (.step hm.tidy hm.bound) (.inr ?_)
  rw [now_stepWith]
  exact List.mem_cons_self

theorem grounded_runFunctionDeclaration (name : Identifier) (parameters : List Parameter)
    (returns : Option TypeExpr) (body : Block) (span : Span) :
    (runFunctionDeclaration name parameters returns body span).Grounded library := by
  have hparameter (p : Parameter) : Run.Grounded library (do
      return (p.name, ← resolve? p.ascription)) := fun m hm =>
    .bind (grounded_resolve? p.ascription m hm) fun _ _ hleads _ => .pure hleads.grounded trivial
  intro m hm
  rw [runFunctionDeclaration]
  refine .bind (Run.Grounded.mapM hparameter parameters m hm) fun parameters n hleads _ => ?_
  refine .bind (grounded_resolve? returns n hleads.grounded) fun returns n hleads _ => ?_
  refine .bind (grounds_makeFunction hleads.grounded _ _ _ _ _) fun f n hleads hf => .get ?_
  exact .declare hleads.grounded ((Value.over_function f).2 hf) _ _ _

/-- The values that were found are made of functions of the set. -/
def FoundOver (K : Set UserFunction) (found : List (Identifier × Value)) : Prop :=
  ∀ entry ∈ found, entry.2.Over K

theorem grounds_bindNames {found : List (Identifier × Value)} (hm : m.now.Grounded library)
    (hfound : FoundOver (m.functions library) found) :
    Grounds library (fun _ _ => True) (bindNames found) m := by
  induction found generalizing m with
  | nil => exact .pure hm trivial
  | cons entry found ih =>
    obtain ⟨hentry, hrest⟩ := List.forall_mem_cons.1 hfound
    refine .get (.bind (.declare hm hentry _ _ _) fun _ n hleads _ => ih hleads.grounded ?_)
    exact fun entry hmem => (hrest entry hmem).mono hleads.functions

theorem over_of_mem_exports {module : String} {exports : Exports} {name : String} {value : Value}
    {K : Set UserFunction} (hmodule : library.module? module = some exports)
    (h : exports.lookup name = some value) (hK : library.functions ⊆ K) : value.Over K := by
  obtain ⟨before, rest, rfl, -⟩ := List.lookup_eq_some_iff.1 h
  exact fun f hf => hK ⟨module, _, hmodule, (name, value), by simp, hf⟩

namespace Machine.Leads

theorem forFile (hm : m.now.Grounded library) (location : Location) :
    m.Leads library (m.forFile location) := by
  have henter : m.Leads library (m.enterFile location) := by
    unfold enterFile Machine.step
    exact .step hm.tidy hm.bound
  refine henter.trans ?_
  unfold Machine.forFile fresh
  exact .step Arena.tidy_withRoot Arena.over_withRoot

/-- Once a file has been run on the machine `n`, the importer has what it had before, and there are
the functions that there are on `n`. -/
theorem afterFile (hm : m.now.Grounded library) (h : m.Leads library n) (location : Location) :
    m.Leads library (m.afterFile location n) ∧
      (m.afterFile location n).functions library = n.functions library := by
  have hfunctions : ((m.enterFile location).resume n).functions library = n.functions library := by
    rw [Machine.functions, now_resume]
    rfl
  have hgrounded : ((m.enterFile location).resume n).now.Grounded library := by
    refine ⟨by rw [now_resume]; exact hm.tidy, ?_⟩
    change Arena.Over (((m.enterFile location).resume n).functions library) _
    rw [hfunctions, now_resume]
    exact hm.bound.mono h.functions
  have hresume : m.Leads library ((m.enterFile location).resume n) := by
    refine ⟨hfunctions ▸ h.functions, hgrounded, fun x hmem => ?_⟩
    rw [moments_resume, List.mem_cons] at hmem
    exact hmem.elim (fun hx => .inr (hx ▸ hgrounded)) (h.moments x)
  have hleave : ((m.enterFile location).resume n).Leads library (m.afterFile location n) := by
    unfold Machine.afterFile leaveFile Machine.step
    exact .step hgrounded.tidy hgrounded.bound
  refine ⟨hresume.trans hleave, ?_⟩
  rw [← hfunctions, Machine.functions, Machine.functions, Machine.afterFile, leaveFile, now_step]
  rfl

end Machine.Leads

/-- Running a top level. -/
def ModuleRunner.Grounded (library : Library) (run : ModuleRunner) : Prop :=
  ∀ ctx stmts, ctx.library = library → (run ctx stmts).Grounded library

variable {run : ModuleRunner} {ctx : Context}

theorem grounded_runFile (hrun : run.Grounded library) (hctx : ctx.library = library)
    (path : String) : (runFile run ctx path).Grounded library := by
  intro m hm
  unfold runFile runSource
  split
  · split
    · exact hrun ctx _ hctx m hm
    · exact .fail hm _
    · exact .raise hm _
  · exact .raise hm _

theorem grounds_findInFile (hrun : run.Grounded library) (hctx : ctx.library = library)
    (module : List String) (names : List Identifier) (hm : m.now.Grounded library) :
    Grounds library FoundOver (findInFile run ctx module names) m := by
  have hinside : (ctx.inside module).library = library := hctx
  have hrunFile := grounded_runFile hrun hinside (ctx.inside module).file
  have hfile {location : Location} {n : Machine}
      (h : (runModuleFile run ctx module).after (m.forFile location) = n) :
      m.Leads library (m.afterFile location n) ∧ n.now.Grounded library ∧
        (m.afterFile location n).functions library = n.functions library := by
    have hstart := Leads.forFile hm location
    have hn := (hrunFile _ hstart.grounded).leads_after
    rw [← runModuleFile, h] at hn
    obtain ⟨hleads, hfunctions⟩ := Leads.afterFile hm (hstart.trans hn) location
    exact ⟨hleads, hn.grounded, hfunctions⟩
  have hsearch := fileSearch run ctx module names m
  generalize hresult : findInFile run ctx module names m = result at hsearch
  cases hsearch with
  | notFound _ => exact .of_error hresult (.raise hm _)
  | circular _ _ => exact .of_error hresult (.raise hm _)
  | failed _ _ hfails => exact .of_error hresult (hfile (Run.after_of_error hfails)).1
  | missing _ _ hends _ =>
    have hleads := (hfile (Run.after_of_ok hends)).1
    exact .of_error hresult (hleads.trans (.raise hleads.grounded _))
  | found _ _ hends hnames =>
    obtain ⟨hleads, hn, hfunctions⟩ := hfile (Run.after_of_ok hends)
    refine .of_ok hresult hleads fun entry hmem => hfunctions ▸ ?_
    obtain ⟨constant, hbinding⟩ :=
      Arena.binding?_of_lookupLocal ((mem_findNames hnames).2 entry hmem)
    exact hn.bound _ _ _ hbinding

theorem grounded_runImport (hrun : run.Grounded library) (hctx : ctx.library = library)
    (names : List Identifier) (module : List String) :
    (runImport run ctx names module).Grounded library := by
  intro m hm
  rw [runImport]
  split
  · refine .bindExcept hm fun found hfound => grounds_bindNames hm fun entry hmem => ?_
    obtain ⟨-, exports, hmodule, hvalues⟩ := mem_findInLibrary hfound
    exact over_of_mem_exports (hctx ▸ hmodule) (hvalues entry hmem) fun f hf => .inl hf
  · exact .bind (grounds_findInFile hrun hctx module names hm) fun found n hleads hfound =>
      grounds_bindNames hleads.grounded hfound

theorem grounded_runTopLevel (hrun : run.Grounded library) {call : Caller}
    (hcall : call.Grounded library) (hctx : ctx.library = library) (stmt : Stmt) :
    (runTopLevel run call ctx stmt).Grounded library := by
  unfold runTopLevel
  split
  · exact grounded_runImport hrun hctx _ _
  · exact grounded_runDeclaration hcall _ _ _ _ _
  · exact grounded_runReassignment hcall _ _
  · exact grounded_runFunctionDeclaration _ _ _ _ _
  · exact fun m hm => .raise hm _

theorem grounded_runModule (library : Library) (fuel : Nat) :
    ModuleRunner.Grounded library (runModule fuel) := by
  induction fuel with
  | zero => exact fun ctx stmts _ m hm => .outOfFuel hm
  | succ fuel ih =>
    intro ctx stmts hctx
    have hcall := grounded_callFunction library ctx fuel
    rw [runModule]
    induction stmts with
    | nil => exact fun m hm => .pure hm trivial
    | cons stmt stmts ihs =>
      exact fun m hm => .bind (.attributed (grounded_runTopLevel ih hcall hctx stmt m hm) _ _)
        fun _ n hleads _ => ihs n hleads.grounded

/-! ### Programs -/

theorem grounds_callMain (ctx : Context) (fuel : Nat) {main : Value} (hm : m.now.Grounded library)
    (hmain : main.Over (m.functions library)) :
    Grounds library Value.Over (callMain ctx fuel main) m := by
  have harguments : Value.AllOver (m.functions library) [.list [.string ctx.file]] := by
    simp [Value.AllOver]
  have hcall := grounds_callValue (grounded_callFunction library ctx fuel) hm hmain harguments
  unfold callMain
  split
  · dsimp only
    split
    · exact hcall
    · exact hcall.mapError _
  · exact hcall

/-- A whole program leads to a machine on which all that is bound is made of functions that there
are. -/
theorem leads_execute (fuel : Nat) (ctx : Context) (source : String)
    (hm : m.now.Grounded ctx.library) : m.Leads ctx.library (execute fuel ctx source m).2 := by
  rw [execute]
  split
  · exact .refl hm
  · next program _ =>
    have hmodule := (grounded_runModule _ fuel ctx program.statements rfl m hm).leads_after
    unfold Run.after at hmodule
    split
    · next hrun => simpa only [hrun] using hmodule
    · next m' hrun =>
      rw [hrun] at hmodule
      split
      · exact hmodule
      · next main hlookup =>
        have hmain := (grounds_callMain ctx fuel hmodule.grounded
          (hmodule.grounded.bound.lookup hlookup)).leads_after
        unfold Run.after at hmain
        split
        · next hcall => exact hmodule.trans (by simpa only [hcall] using hmain)
        · next hcall => exact hmodule.trans (by simpa only [hcall] using hmain)

end

theorem Idle.grounded {ctx : Context} {m : Machine} (h : Idle ctx m) :
    m.now.Grounded ctx.library ∧ ∀ x ∈ m.moments, x.Grounded ctx.library := by
  induction h with
  | first world =>
    have hstart (world : World) : (start world).now.Grounded ctx.library ∧
        ∀ x ∈ (start world).moments, x.Grounded ctx.library := by
      have hgrounded : Moment.Grounded ctx.library ⟨.initial world, [], []⟩ :=
        ⟨Arena.tidy_withRoot, Arena.over_withRoot⟩
      simpa [start, now, moments, History.enter] using hgrounded
    unfold Machine.first
    split <;> exact hstart _
  | executed fuel source _ ih =>
    have hleads := leads_execute fuel ctx source ih.1
    exact ⟨hleads.grounded, fun x hmem => (hleads.moments x hmem).elim (ih.2 x) id⟩

/-- At every moment of a program all functions in what is bound are from the library or have been
made. -/
theorem Reachable.grounded {ctx : Context} {m : Machine} (h : Reachable ctx m) :
    m.now.Grounded ctx.library := by
  obtain ⟨m₀, hidle, hmem⟩ := h
  exact hidle.grounded.2 _ hmem

end Script

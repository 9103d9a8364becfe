import Script.Proofs.Eval.Programs
import Script.Proofs.Eval.Thin
import Script.Proofs.Files.Components

/-!
# Failures are located

Unless in debug mode, an error gets the statement that it escapes from, and that stands on a line,
which is not zero as long as the texts are not too long for the counters of their lines. To see the
latter, a program is run beside itself with everything in it that stood on a line counted as zero put
on the next one, which changes nothing. Only one thing is run outside of all statements and
declarations: the call of a `main` that is no function of the program.
-/

namespace Script

open Lockstep

/-! ### Errors that belong to a statement -/

namespace Error

theorem statement_atStatement (e : Error) (kind : StmtKind) (position : Position) :
    (e.atStatement kind position).statement ≠ none := by
  unfold atStatement
  split
  · next hstatement => rw [hstatement]; nofun
  · nofun

/-- If an error has a statement, then it stands on a line that is not counted as zero. -/
def OnLine (e : Error) : Prop := e.statement ≠ none → 1 ≤ (e.position.move .counted).line

theorem OnLine.atStatement {e : Error} (h : e.OnLine) (kind : StmtKind) (position : Position) :
    (e.atStatement kind (position.move .onLines)).OnLine := by
  unfold Error.atStatement
  split
  · exact h
  · intro _
    rw [Position.move_counted, Position.move_onLines]
    dsimp only [UInt32.size]
    split <;> omega

theorem OnLine.moduleError {e : Error} (h : e.OnLine) (module : String) :
    (moduleError module e).OnLine := by
  unfold Script.moduleError
  split
  · exact h
  · exact fun hstatement => absurd rfl hstatement

end Error

/-- Whatever error the run stops with is as `P` says. -/
def Stop.Fails (P : Error → Prop) (stop : Stop) : Prop := ∀ e, stop = .failed e → P e

namespace Stop.Fails

variable {P Q : Error → Prop} {stop : Stop}

theorem mapError {f : Error → Error} (h : stop.Fails P) (hf : ∀ e, P e → Q (f e)) :
    (stop.mapError f).Fails Q := by
  cases stop with
  | failed e =>
    rintro _ ⟨⟩
    exact hf e (h e rfl)
  | outOfFuel => nofun

theorem attributed (h : stop.Fails Error.OnLine) (ctx : Context) (kind : StmtKind)
    (position : Position) :
    (stop.attributed ctx kind (position.move .onLines)).Fails Error.OnLine := by
  unfold Stop.attributed
  split
  · exact h
  · exact h.mapError fun _ he => he.atStatement kind position

theorem statement {ctx : Context} (hdebug : ctx.debug = false) (stop : Stop) (kind : StmtKind)
    (position : Position) :
    (stop.attributed ctx kind position).Fails fun e => e.statement ≠ none := by
  rw [Stop.attributed, if_neg (by simp [hdebug])]
  exact mapError (P := fun _ => True) (fun _ _ => trivial)
    fun e _ => e.statement_atStatement kind position

end Stop.Fails

/-- What a top level stops with has a statement. -/
theorem statement_of_runTopLevels {run : ModuleRunner} {call : Caller} {ctx : Context}
    (hdebug : ctx.debug = false) {stmts : List Stmt} {m n : Machine} {stop : Stop}
    (h : runTopLevels run call ctx stmts m = .error stop n) :
    stop.Fails fun e => e.statement ≠ none := by
  induction stmts generalizing m with
  | nil => cases h
  | cons stmt stmts ih =>
    rw [runTopLevels] at h
    cases hstmt : runTopLevel run call ctx stmt m with
    | ok _ k =>
      have hrest := (Run.bind_of_ok (Run.attributedTo_of_ok hstmt)).symm.trans h
      exact ih hrest
    | error _ k =>
      cases (Run.bind_of_error (Run.attributedTo_of_error hstmt)).symm.trans h
      exact Stop.Fails.statement hdebug _ _ _

theorem statement_of_runModule {fuel : Nat} {ctx : Context} (hdebug : ctx.debug = false)
    {stmts : List Stmt} {m n : Machine} {stop : Stop}
    (h : runModule fuel ctx stmts m = .error stop n) :
    stop.Fails fun e => e.statement ≠ none := by
  cases fuel with
  | zero =>
    cases h
    nofun
  | succ fuel => exact statement_of_runTopLevels hdebug h

/-- A call of something else than a function of the program fails at no place, and leaves the arena as
it was. -/
theorem callValue_error {call : Caller} {main : Value} (hmain : ∀ f, main ≠ .function f)
    {arguments : List Value} {m n : Machine} {stop : Stop}
    (h : callValue call main arguments m = .error stop n) :
    (stop.Fails fun e => e.statement = none ∧ e.position = .unknown) ∧ n.arena = m.arena := by
  have hraised {m : Machine} {cause : Cause}
      (h : (Run.raise cause : Run Value) m = .error stop n) :
      (stop.Fails fun e => e.statement = none ∧ e.position = .unknown) ∧ n.arena = m.arena := by
    cases h
    refine ⟨?_, rfl⟩
    rintro _ ⟨⟩
    exact ⟨rfl, rfl⟩
  cases main with
  | function f => exact absurd rfl (hmain f)
  | native f =>
    rw [callValue] at h
    cases hoverflows : f.overflows arguments with
    | true =>
      rw [Run.callNative_of_overflows hoverflows] at h
      cases h
      exact ⟨nofun, rfl⟩
    | false =>
      rw [Run.callNative_of_fits hoverflows] at h
      generalize f.call arguments m.world.output = called at h
      obtain ⟨cause | value, output⟩ := called
      · exact hraised (m := m.step fun s => { s with world.output := output }) h
      · cases h
  | _ => exact hraised h

theorem callMain_error {ctx : Context} (hdebug : ctx.debug = false) {fuel : Nat} {main : Value}
    {m n : Machine} {stop : Stop} (h : callMain ctx fuel main m = .error stop n) :
    (stop.Fails fun e => e.statement ≠ none) ∨
      (∀ f, main ≠ .function f) ∧ n.arena = m.arena ∧
        stop.Fails fun e => e.statement = none ∧ e.position = .unknown := by
  by_cases hmain : ∃ f, main = .function f
  · obtain ⟨f, rfl⟩ := hmain
    rw [LawfulTopLevels.callMain_function] at h
    cases hcall : callFunction ctx fuel f [.list [.string ctx.file]] m with
    | ok _ k => cases (Run.attributedTo_of_ok hcall).symm.trans h
    | error _ k =>
      cases (Run.attributedTo_of_error hcall).symm.trans h
      exact .inl (Stop.Fails.statement hdebug _ _ _)
  · have hne : ∀ f, main ≠ .function f := fun f heq => hmain ⟨f, heq⟩
    rw [LawfulTopLevels.callMain_of_ne hne] at h
    obtain ⟨hfails, harena⟩ := callValue_error hne h
    exact .inr ⟨hne, harena, hfails⟩

/-- An error of a program has a statement, or is that of the call of a `main` which is no function of
the program. -/
theorem statement_of_execute {ctx : Context} (hdebug : ctx.debug = false) {fuel : Nat}
    {source : String} {m n : Machine} {e : Error}
    (h : execute fuel ctx source m = (.failed (.program e), n)) :
    e.statement ≠ none ∨ ∃ main, n.lookupRoot "main" = .ok main ∧ (∀ f, main ≠ .function f) ∧
      e.statement = none ∧ e.position = .unknown := by
  have hstop {stop : Stop} {k : Machine}
      (h : (Outcome.ofStop stop, k) = (.failed (.program e), n)) : stop = .failed e ∧ k = n := by
    cases stop with
    | outOfFuel => cases h
    | failed _ =>
      cases h
      exact ⟨rfl, rfl⟩
  cases hparse : parseSource source ctx.file with
  | error errors =>
    rw [execute_of_error hparse] at h
    cases h
  | ok program =>
    rw [execute_of_parse hparse, runProgram] at h
    split at h
    · next htop =>
      exact .inl (statement_of_runModule hdebug htop e (hstop h).1)
    · split at h
      · cases h
      · next main hmain =>
        split at h
        · next hcall =>
          obtain ⟨rfl, rfl⟩ := hstop h
          obtain hfails | ⟨hne, harena, hfails⟩ := callMain_error hdebug hcall
          · exact .inl (hfails e rfl)
          · refine .inr ⟨main, ?_, hne, hfails e rfl⟩
            rw [Machine.lookupRoot, harena]
            exact hmain
        · cases h

/-! ### Lines -/

/-- The functions in the exports stand on lines not counted as zero, if there are any. -/
def Library.OnLines (library : Library) : Prop := library.map (Value.move .onLines) = library

/-- The second run is the first one with all on a line counted as zero put on the next line. -/
def onLines (earlier : Array Warning) : Translation where
  value := Value.move .onLines
  displacement := .onLines
  Stops _ stop := stop.Fails Error.OnLine
  earlier := (earlier, earlier)

instance (earlier : Array Warning) : (onLines earlier).lockstep.Faithful := ⟨fun _ _ _ h => h⟩

theorem onLines_sound (earlier : Array Warning) : (onLines earlier).Sound where
  transparent := Value.transparent_move .onLines
  sinks := Translation.sinksAgree_of_id rfl
  stopping :=
    { fails := fun e he _ heq hstatement => by
        cases heq
        exact absurd he hstatement
      exhausted := nofun
      left := fun hleft => hleft.elim }

theorem onLines_lawful (earlier : Array Warning) : (onLines earlier).lockstep.LawfulModules where
  toLawfulImports := Translation.imports (onLines_sound earlier)
  moduleErrors :=
    { stops := fun hstops module => hstops.mapError fun _ he => he.moduleError module
      left := fun hleft => hleft.elim }

theorem onLines_settles (earlier : Array Warning) {source : String} (h : FitsCounters source) :
    (onLines earlier).lockstep.Settles source := by
  intro file program hparse
  have hmove : program.move .onLines = program := move_of_parseSource h.move_onLines hparse
  have hstatements := program.statements_move .onLines
  rw [hmove] at hstatements
  exact hstatements.symm

theorem onLines_surroundings (earlier : Array Warning) {ctx : Context}
    (h : ctx.library.OnLines) : (onLines earlier).lockstep.Surroundings ctx ctx where
  file := rfl
  attributes :=
    { stops := fun hstops kind position => hstops.attributed ctx kind position
      left := fun hleft => hleft.elim }
  limits := .inl rfl
  files := rfl
  exports module := by
    have hmodules : ctx.library.modules.map
        (Prod.map id (List.map (Prod.map id (Value.move .onLines)))) = ctx.library.modules :=
      congrArg Library.modules h
    have hmodule := lookup_map_snd ctx.library.modules
      (List.map (Prod.map id (Value.move .onLines))) module
    rwa [hmodules] at hmodule

/-- Nothing that is bound on the machine is a function on a line counted as zero. -/
def Machine.OnLines (m : Machine) : Prop := m.arena.map (Value.move .onLines) = m.arena

/-- The files that can be read are not too long for the counters of places. -/
def FileTree.FitCounters (files : FileTree) : Prop :=
  ∀ path source, files.read path = .ok source → FitsCounters source

namespace Machine.OnLines

variable {m : Machine} {ctx : Context} (h : m.OnLines)

include h

theorem rel : (onLines m.world.warnings).lockstep.Rel m m where
  arena := h.symm
  active := rfl
  depth := rfl
  world := (Translation.Worlds.iff_of_number rfl).2
    ⟨#[], Array.append_empty.symm, by rw [Array.map_empty, Array.append_empty]; rfl⟩

/-- What stands on lines stays on lines, and an error that belongs to a statement stands on one. -/
theorem execute (hlibrary : ctx.library.OnLines) (hfiles : ctx.files.FitCounters) (fuel : Nat)
    {source : String} (hsource : FitsCounters source) :
    (Script.execute fuel ctx source m).2.OnLines ∧
      ∀ e, (Script.execute fuel ctx source m).1 = .failed (.program e) → e.OnLine := by
  have hends := (onLines_lawful m.world.warnings).execute_ends
    (onLines_surroundings _ hlibrary) (fun _ _ hread => onLines_settles _ (hfiles _ _ hread)) fuel
    (onLines_settles _ hsource) h.rel
  obtain ⟨houtcomes, hrel, -⟩ := hends.met_of_total
  exact ⟨hrel.arena.symm, fun e he => houtcomes.stops he he e rfl⟩

end Machine.OnLines

/-- A machine that was made for a context, and on which programs may have been run that are not too
long for the counters of places. -/
inductive IdleWithinCounters (ctx : Context) : Machine → Prop
  | first (world : World) : IdleWithinCounters ctx (.first ctx world)
  | executed {m : Machine} (fuel : Nat) {source : String} : FitsCounters source →
    IdleWithinCounters ctx m → IdleWithinCounters ctx (execute fuel ctx source m).2

namespace IdleWithinCounters

variable {ctx : Context} {m : Machine} (h : IdleWithinCounters ctx m)
  (hlibrary : ctx.library.OnLines) (hfiles : ctx.files.FitCounters)

include h hlibrary hfiles

theorem onLines : m.OnLines := by
  induction h with
  | first world =>
    unfold Machine.first
    split <;> exact Arena.withRoot_map _
  | executed fuel hsource _ ih => exact (ih.execute hlibrary hfiles fuel hsource).1

/-- Without debug mode, every error of a program has a statement and a line, wherever it was raised,
except that of the call of a `main` which is no function of the program: that has neither. The line
is not zero, also as a counter of 32 bits has it, if no text is too long for such a counter. -/
theorem execute_located (hdebug : ctx.debug = false) (fuel : Nat) {source : String}
    (hsource : FitsCounters source) {e : Error} {n : Machine}
    (hfails : execute fuel ctx source m = (.failed (.program e), n)) :
    (e.statement.isSome ∧ 1 ≤ (e.position.move .counted).line) ∨
      ∃ main, n.lookupRoot "main" = .ok main ∧ (∀ f, main ≠ .function f) ∧
        e.statement = none ∧ e.position = .unknown := by
  refine (statement_of_execute hdebug hfails).imp_left fun hstatement => ?_
  have hline := ((h.onLines hlibrary hfiles).execute hlibrary hfiles fuel hsource).2 e
    (by rw [hfails])
  exact ⟨Option.isSome_iff_ne_none.2 hstatement, hline hstatement⟩

end IdleWithinCounters

def Outcome.error? : Outcome → Option Error
  | failed (.program e) => some e
  | _ => none

theorem Outcome.eq_of_error? {outcome : Outcome} {e : Error} (h : outcome.error? = some e) :
    outcome = .failed (.program e) := by
  unfold error? at h
  split at h
  · cases h
    rfl
  · cases h

theorem Library.onLines_standard : Library.standard.OnLines := rfl

theorem FileTree.fitCounters_empty : FileTree.empty.FitCounters := by
  intro path source hread
  obtain ⟨location, bytes, -, hnode, -⟩ := locate_of_read hread
  simp [node?, entry?, empty] at hnode

/-- An error in the body of `main`. -/
theorem IdleWithinCounters.execute_located_of_body :
    let ctx : Context := ⟨"main.vi", false, 200, .standard, .empty⟩
    let source := "fn main(files) \x7b\n  return x;\n\x7d"
    let run := execute 4 ctx source (.first ctx (.empty none))
    let e : Error := ⟨.variableNotDeclared "x", ⟨19, 2, "main.vi"⟩, some .returnValue⟩
    run.1 = .failed (.program e) ∧
      ((e.statement.isSome ∧ 1 ≤ (e.position.move .counted).line) ∨
        ∃ main, run.2.lookupRoot "main" = .ok main ∧ (∀ f, main ≠ .function f) ∧
          e.statement = none ∧ e.position = .unknown) := by
  intro ctx source run e
  have hfails : run.1 = .failed (.program e) := Outcome.eq_of_error? (by decide +kernel)
  have hfiles : ctx.files.FitCounters := FileTree.fitCounters_empty
  have hsource : FitsCounters source := ⟨by decide, by decide⟩
  exact ⟨hfails, (first _).execute_located Library.onLines_standard hfiles rfl 4 hsource
    (Prod.ext hfails rfl)⟩

/-- The call of a `main` that is a number fails at no line. -/
theorem execute_unlocated_of_integer :
    let ctx : Context := ⟨"main.vi", false, 200, .standard, .empty⟩
    let run := execute 4 ctx "let main = 5;" (.first ctx (.empty none))
    ∃ e, run.1 = .failed (.program e) ∧ e.statement = none ∧ e.position.line = 0 ∧
      (Failure.program e).diagnostics = ["ERROR:0: 5 is not callable\n"] := by
  intro ctx run
  have hfails : run.1 = .failed (.program (.ofCause (.notCallable "5"))) :=
    Outcome.eq_of_error? (by decide +kernel)
  exact ⟨_, hfails, rfl, rfl, by decide +kernel⟩

end Script

import Script.Proofs.Eval.Thin

/-!
# Layout is irrelevant

What a program does depends on the tokens that it consists of, and not on where these stand. Two
texts with the same tokens are compared through a run of what they have in common, a program without
places. The modules that it imports do stand somewhere, in the same files for both, and may tell so
in the message of an error. They run as they are, and only what comes back from them loses its places.
-/

namespace Script

open Lockstep

/-! ### Without places -/

def Failure.placeless : Failure → Failure
  | syntaxErrors errors => .syntaxErrors (errors.map (Error.move .nowhere))
  | program e => .program (e.move .nowhere)
  | failure => failure

def Outcome.placeless : Outcome → Outcome
  | failed failure => .failed failure.placeless
  | outcome => outcome

/-- The errors that a failure is reported with. -/
def Failure.errors : Failure → List Error
  | syntaxErrors errors => errors
  | program e => [e]
  | unreadable _ _ | missingEntryPoint => []

theorem Failure.exitCode_placeless (failure : Failure) :
    failure.placeless.exitCode = failure.exitCode := by
  cases failure <;> rfl

theorem Failure.causes_placeless (failure : Failure) :
    failure.placeless.errors.map Error.cause = failure.errors.map Error.cause := by
  cases failure with
  | syntaxErrors errors => exact List.map_map
  | _ => rfl

/-- Without places nothing is lost of a failure but the places. -/
theorem Outcome.failed_of_placeless {outcome : Outcome} {failure : Failure}
    (h : outcome.placeless = (Outcome.failed failure).placeless) :
    ∃ failure', outcome = .failed failure' ∧ failure'.exitCode = failure.exitCode ∧
      failure'.errors.map Error.cause = failure.errors.map Error.cause := by
  cases outcome with
  | failed failure' =>
    have hplaceless : failure'.placeless = failure.placeless := Outcome.failed.inj h
    refine ⟨failure', rfl, ?_, ?_⟩
    · rw [← failure'.exitCode_placeless, hplaceless, failure.exitCode_placeless]
    · rw [← failure'.causes_placeless, hplaceless, failure.causes_placeless]
  | finished => cases h
  | outOfFuel => cases h

def Context.placeless (ctx : Context) : Context :=
  { ctx with library := ctx.library.map (Value.move .nowhere) }

/-- The machine with the places forgotten of all that is bound on it and that it has warned of. -/
def Machine.placeless (m : Machine) : Machine :=
  { m with
    arena := m.arena.map (Value.move .nowhere)
    world.warnings := m.world.warnings.map (Warning.move .nowhere) }

/-- Runs with all places, and forgets them afterwards. -/
def Run.placeless (x : Run α) : Run α := fun m =>
  match x m with
  | .ok a n => .ok a n.placeless
  | .error stop n => .error stop n.placeless

/-- Runs modules with the places in them and in the library, and forgets them afterwards. -/
def forgetfully (library : Library) (run : ModuleRunner) : ModuleRunner := fun ctx stmts =>
  Run.placeless (run { ctx with library } stmts)

/-- Runs a top level without places. -/
def runPlaceless (ctx : Context) : Nat → List Stmt → Run Unit
  | 0, _ => throw .outOfFuel
  | fuel + 1, stmts =>
    runTopLevels (forgetfully ctx.library (runModule fuel)) (callFunction ctx.placeless fuel)
      ctx.placeless stmts

theorem Error.atStatement_nowhere (e : Error) (kind : StmtKind) (position : Position) :
    (e.atStatement kind position).move .nowhere = (e.move .nowhere).atStatement kind .unknown := by
  obtain ⟨cause, place, _ | statement⟩ := e <;> rfl

theorem Stop.attributed_nowhere (ctx : Context) (kind : StmtKind) (position : Position)
    (stop : Stop) :
    (stop.attributed ctx kind position).mapError (Error.move .nowhere) =
      (stop.mapError (Error.move .nowhere)).attributed ctx kind .unknown := by
  unfold Stop.attributed
  split
  · rfl
  · cases stop with
    | failed e => exact congrArg Stop.failed (e.atStatement_nowhere kind position)
    | outOfFuel => rfl

/-! ### A run beside the one without places -/

/-- The second run is that of what is left of the first one without places. -/
def unplaced : Translation where
  value := Value.move .nowhere
  displacement := .nowhere
  Stops stop stop' :=
    stop'.mapError (Error.move .nowhere) = stop.mapError (Error.move .nowhere)

instance : unplaced.lockstep.Faithful := ⟨fun _ _ _ h => h⟩

theorem unplaced_sound : unplaced.Sound where
  transparent := Value.transparent_move .nowhere
  sinks := Translation.sinksAgree_of_id rfl
  stopping :=
    { fails := fun _ _ => rfl
      exhausted := rfl
      left := fun hleft => hleft.elim }

theorem unplaced_surroundings (ctx : Context) :
    unplaced.lockstep.Surroundings ctx ctx.placeless where
  file := rfl
  attributes :=
    { stops := fun {stop stop'} hstops kind position => by
        have hplaceless := congrArg (Stop.attributed ctx kind .unknown) hstops
        rwa [← Stop.attributed_nowhere, ← Stop.attributed_nowhere] at hplaceless
      left := fun hleft => hleft.elim }
  limits := .inl rfl
  files := rfl
  exports module := lookup_map_snd ctx.library.modules
    (List.map (Prod.map id (Value.move .nowhere))) module

theorem unplaced_world {w w' : World} : unplaced.Worlds w w' ↔
    w' = { w with warnings := w.warnings.map (Warning.move .nowhere) } := by
  rw [Translation.Worlds.iff_of_number rfl]
  simp [unplaced]

theorem Machine.unplaced_rel (m : Machine) : unplaced.lockstep.Rel m m.placeless :=
  ⟨rfl, rfl, rfl, unplaced_world.2 rfl⟩

/-! ### Imported modules -/

/-- The two runs are the same, in worlds that have had other warnings before. -/
def warnedBefore (w w' : World) : Translation where
  value := id
  earlier := (w.warnings, w'.warnings)

instance (w w' : World) : (warnedBefore w w').lockstep.Exact where
  not_left _ _ _ h := h
  displacement := rfl
  stops := rfl

section

variable {w w' v v' : World} (h : unplaced.Worlds w w')

include h

theorem warnedBefore_world : (warnedBefore w w').Worlds w w' := by
  obtain rfl := unplaced_world.1 h
  exact (Translation.Worlds.iff_of_number rfl).2 ⟨#[], by simp [warnedBefore]⟩

/-- The earlier warnings have no places, and the later ones are forgotten. -/
theorem forgotten_world (hv : (warnedBefore w w').Worlds v v') :
    unplaced.Worlds v { v' with warnings := v'.warnings.map (Warning.move .nowhere) } := by
  obtain rfl := unplaced_world.1 h
  obtain ⟨warnings, hwarnings, rfl⟩ := (Translation.Worlds.iff_of_number rfl).1 hv
  rw [unplaced_world, hwarnings]
  simp [warnedBefore, Function.comp_def, Warning.move_id, Warning.move_nowhere]

end

/-- A run of a file that keeps in step with itself keeps in step with the run that is forgotten. -/
theorem At.forgotten {own : Set String} {x : Run Unit} {m m' n n' : Machine}
    (hm : unplaced.Worlds m.world m'.world)
    (h : (warnedBefore m.world m'.world).lockstep.At own Ended x x n n') (f : Error → Error) :
    unplaced.lockstep.At own Ended (Run.mapError f x) (Run.mapError f x.placeless) n n' := by
  have hrel {k k' : Machine} (h : (warnedBefore m.world m'.world).lockstep.Rel k k') :
      unplaced.lockstep.Rel k k'.placeless := by
    refine ⟨?_, h.active, h.depth, forgotten_world hm h.world⟩
    change k'.arena.map (Value.move .nowhere) = k.arena.map (Value.move .nowhere)
    rw [h.arena, show (warnedBefore m.world m'.world).value = id from rfl, Arena.map_id]
  obtain ⟨_, k, _, k', hx, hx', hk, hstep, -⟩ | ⟨stop, k, k', hx, hx', hk, hstep⟩ := h.ends
  · have hforgotten : x.placeless n' = .ok () k'.placeless := by rw [Run.placeless, hx']
    exact .of_ok (Run.mapError_of_ok hx) (Run.mapError_of_ok hforgotten) (hrel hk) hstep trivial
  · have hforgotten : x.placeless n' = .error stop k'.placeless := by rw [Run.placeless, hx']
    exact .of_stop (Run.mapError_of_error hx) (Run.mapError_of_error hforgotten) (hrel hk) hstep rfl

theorem Machine.placeless_fresh {m m' : Machine} (hm : unplaced.Worlds m.world m'.world) :
    m'.fresh.placeless = m'.fresh := by
  have hwarnings : m'.world.warnings.map (Warning.move .nowhere) = m'.world.warnings := by
    rw [unplaced_world.1 hm]
    simp [Function.comp_def, Warning.move_nowhere]
  unfold Machine.placeless
  have harena : m'.fresh.arena.map (Value.move .nowhere) = m'.fresh.arena := Arena.withRoot_map _
  rw [harena, show m'.fresh.world = m'.world from rfl, hwarnings]
  rfl

/-- What the run of a file forgets are the places that its program leaves. -/
theorem runFile_forgetfully (ctx : Context) (run : ModuleRunner) (path : String) {m : Machine}
    (hm : m.placeless = m) :
    runFile (forgetfully ctx.library run) ctx.placeless path m =
      (runFile run ctx path).placeless m := by
  have hraised (e : Error) : (Run.fail e : Run Unit) m = (Run.fail e : Run Unit).placeless m := by
    have hraise : (m.raise e.cause).placeless = m.raise e.cause :=
      congrArg (Machine.raise · e.cause) hm
    exact congrArg (EStateM.Result.error (Stop.failed e)) hraise.symm
  unfold runFile
  rw [show ctx.placeless.files = ctx.files from rfl]
  cases ctx.files.read path with
  | error e => exact hraised _
  | ok source =>
    dsimp only
    unfold runSource
    rw [show ctx.placeless.file = ctx.file from rfl]
    rcases parseSource source ctx.file with (_ | ⟨e, _⟩) | program
    · exact hraised _
    · exact hraised e
    · rfl

/-- The file of a module runs in step with the run that is forgotten. -/
theorem unplaced_runFile (fuel : Nat) (ctx : Context) (path : String) (f : Error → Error)
    {m m' : Machine} (hm : unplaced.lockstep.Rel m m') :
    unplaced.lockstep.At .univ Ended (Run.mapError f (runFile (runModule fuel) ctx path))
      (Run.mapError f (runFile (forgetfully ctx.library (runModule fuel)) ctx.placeless path))
      m.fresh m'.fresh := by
  have hL : (warnedBefore m.world m'.world).lockstep.LawfulModules :=
    Translation.lawful transparent_id rfl
  have hfresh : (warnedBefore m.world m'.world).lockstep.Rel m.fresh m'.fresh :=
    ⟨(Arena.map_id _).symm, rfl, rfl, warnedBefore_world hm.world⟩
  have hfile := hL.runFile (hL.runModule_moved fuel) (Contexts.of_value rfl ctx).surroundings
    (settlesFiles_of_unmoved rfl _) path m.fresh m'.fresh hfresh
  refine (At.forgotten hm.world hfile f).congr rfl ?_
  have hforgotten := runFile_forgetfully ctx (runModule fuel) path
    (Machine.placeless_fresh hm.world)
  rw [Run.mapError, hforgotten, Run.mapError]

/-! ### Programs -/

/-- A top level runs in step with what is left of it without places. -/
theorem unplaced_runModule (ctx : Context) (fuel : Nat) (stmts : List Stmt) :
    unplaced.lockstep.Along .univ Ended (runModule fuel ctx stmts)
      (runPlaceless ctx fuel (stmts.map (Stmt.move .nowhere))) := by
  have hL := Translation.imports unplaced_sound
  have hctx := unplaced_surroundings ctx
  intro m m' hm
  cases fuel with
  | zero => exact hL.outOfFuel hm
  | succ fuel =>
    have hcall := hL.callFunction_within hctx.attributes hctx.limits fuel
    have hfind (module : List String) (names : List Identifier) :
        unplaced.lockstep.Along ∅ (unplaced.lockstep.Found names)
          (findInFile (runModule fuel) ctx module names)
          (findInFile (forgetfully ctx.library (runModule fuel)) ctx.placeless module
            (names.map (Identifier.move .nowhere))) :=
      hL.findInFile hctx module names fun m m' hm =>
        unplaced_runFile fuel { ctx with file := Path.ofModule ctx.file module }
          (Path.ofModule ctx.file module) (moduleError (dotted module)) hm
    have hstmts := hL.runTopLevels_moved hctx.attributes stmts fun stmt _ =>
      hL.runTopLevel_moved hcall stmt fun names module _ _ =>
        hL.runImport_moved hctx (hfind module names)
    exact hL.weaken (hstmts m m' hm) (Set.subset_univ _)

/-- Programs end in the same way but for places. -/
theorem Outcome.placeless_eq {outcome outcome' : Outcome}
    (h : unplaced.lockstep.Outcomes outcome outcome') :
    outcome'.placeless = outcome.placeless := by
  cases h with
  | @stopped stop stop' hstops =>
    have hofStop (stop : Stop) :
        (ofStop stop).placeless = ofStop (stop.mapError (Error.move .nowhere)) := by
      cases stop <;> rfl
    rw [hofStop, hofStop]
    exact congrArg ofStop hstops
  | _ => rfl

/-- A program runs in step with what is left of it without places. -/
theorem unplaced_execute {ctx : Context} {source : String} {program : Block}
    (h : parseSource source ctx.file = .ok program) (fuel : Nat) (m : Machine) :
    unplaced.lockstep.Ends m (execute fuel ctx source m)
      (runProgram fuel ctx.placeless
        (runPlaceless ctx fuel (program.statements.map (Stmt.move .nowhere))) m.placeless) := by
  rw [execute_of_parse h]
  exact (Translation.imports unplaced_sound).runProgram (unplaced_surroundings ctx) fuel
    (unplaced_runModule ctx fuel program.statements m _ m.unplaced_rel)

/-- Where the same machine has come to, but for places. -/
theorem messages_of_rel {m m' n : Machine} (hm : unplaced.lockstep.Rel m n)
    (hm' : unplaced.lockstep.Rel m' n) :
    m'.world.output = m.world.output ∧
    m'.world.warnings.map Warning.message = m.world.warnings.map Warning.message ∧
    m'.arena.map (Value.move .nowhere) = m.arena.map (Value.move .nowhere) := by
  have hmessages {m : Machine} (hm : unplaced.lockstep.Rel m n) :
      m.world.warnings.map Warning.message = n.world.warnings.map Warning.message := by
    rw [unplaced_world.1 hm.world]
    simp [Function.comp_def]
  exact ⟨hm'.world.output.symm.trans hm.world.output, (hmessages hm').trans (hmessages hm).symm,
    hm'.arena.symm.trans hm.arena⟩

/-- Two texts with the same tokens, wherever these stand, make the same program. They end in the same
way but for the places of errors, so with the same exit code and the same causes in the same order.
They write the same, give warnings with the same messages, and leave the same names bound to the
same values, but for the places in functions. -/
theorem execute_layout (fuel : Nat) (ctx : Context) (m : Machine) {source source' : String}
    {tokens tokens' : List Token} (htokens : tokenize source ctx.file = .ok tokens)
    (htokens' : tokenize source' ctx.file = .ok tokens')
    (hsame : tokens.map (fun token => (token.kind, token.text)) =
      tokens'.map fun token => (token.kind, token.text)) :
    let run := execute fuel ctx source m
    let run' := execute fuel ctx source' m
    run'.1.placeless = run.1.placeless ∧
    (∀ failure, run.1 = .failed failure → ∃ failure', run'.1 = .failed failure' ∧
      failure'.exitCode = failure.exitCode ∧
      failure'.errors.map Error.cause = failure.errors.map Error.cause) ∧
    run'.2.world.output = run.2.world.output ∧
    run'.2.world.warnings.map Warning.message = run.2.world.warnings.map Warning.message ∧
    run'.2.arena.map (Value.move .nowhere) = run.2.arena.map (Value.move .nowhere) := by
  intro run run'
  have hparse : parseSource source ctx.file = parse tokens ctx.file := by rw [parseSource, htokens]
  have hparse' : parseSource source' ctx.file = parse tokens' ctx.file := by
    rw [parseSource, htokens']
  have hruns : run'.1.placeless = run.1.placeless ∧
      run'.2.world.output = run.2.world.output ∧
      run'.2.world.warnings.map Warning.message = run.2.world.warnings.map Warning.message ∧
      run'.2.arena.map (Value.move .nowhere) = run.2.arena.map (Value.move .nowhere) := by
    obtain ⟨program, program', hok, hok', hstatements⟩ | ⟨errors, errors', herror, herror', herrors⟩ :=
      parse_alike ctx.file hsame
    · obtain ⟨houtcomes, hrel, -⟩ := (unplaced_execute (hparse.trans hok) fuel m).met_of_total
      obtain ⟨houtcomes', hrel', -⟩ := (unplaced_execute (hparse'.trans hok') fuel m).met_of_total
      rw [hstatements] at houtcomes hrel
      exact ⟨(Outcome.placeless_eq houtcomes').symm.trans (Outcome.placeless_eq houtcomes),
        messages_of_rel hrel hrel'⟩
    · have hrun : run = (.failed (.syntaxErrors errors), m) :=
        execute_of_error (hparse.trans herror) fuel m
      have hrun' : run' = (.failed (.syntaxErrors errors'), m) :=
        execute_of_error (hparse'.trans herror') fuel m
      rw [hrun, hrun']
      exact ⟨congrArg (fun errors => Outcome.failed (.syntaxErrors errors)) herrors.symm,
        rfl, rfl, rfl⟩
  exact ⟨hruns.1, fun failure hfailed => Outcome.failed_of_placeless (hfailed ▸ hruns.1), hruns.2⟩

/-- An assignment fails in the same way on several lines as on one. -/
theorem execute_layout_of_lines :
    let ctx : Context := ⟨"main.vi", false, 200, .standard, .empty⟩
    let m := Machine.first ctx (.empty none)
    let source := "x=5;"
    let source' := "x // is not declared\n  = 5;"
    ∃ tokens tokens', tokenize source ctx.file = .ok tokens ∧
      tokenize source' ctx.file = .ok tokens' ∧
      tokens.map (fun token => (token.kind, token.text)) =
        tokens'.map (fun token => (token.kind, token.text)) ∧
      (execute 4 ctx source' m).1.placeless = (execute 4 ctx source m).1.placeless := by
  intro ctx m source source'
  have hwords : ((tokenize source ctx.file).toOption.map
        (List.map fun token => (token.kind, token.text))).isSome ∧
      (tokenize source ctx.file).toOption.map (List.map fun token => (token.kind, token.text)) =
        (tokenize source' ctx.file).toOption.map (List.map fun token => (token.kind, token.text)) := by
    decide +kernel
  rcases htokens : tokenize source ctx.file with e | tokens
  · rw [htokens] at hwords
    cases hwords.1
  rcases htokens' : tokenize source' ctx.file with e | tokens'
  · rw [htokens, htokens'] at hwords
    cases hwords.2
  rw [htokens, htokens'] at hwords
  have hsame := Option.some.inj hwords.2
  exact ⟨tokens, tokens', rfl, rfl, hsame, (execute_layout 4 ctx m htokens htokens' hsame).1⟩

end Script

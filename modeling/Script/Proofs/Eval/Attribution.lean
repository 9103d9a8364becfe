import Script.Proofs.Eval.Activities
import Script.Proofs.Eval.Located

/-!
# Where errors are raised

An error that ends a program was raised somewhere inside of it. What was being done there stands in
other things that were being done, up to the call of the main function or the top level of the file,
and among those are statements. The error is attributed to the innermost of them that does not stand
behind an `else`.
-/

namespace Script

open Lockstep

/-! ### From the outside to the inside -/

/-- Something that is being done from a machine, in a context and with so much fuel. -/
structure Config where
  ctx : Context
  fuel : Nat
  machine : Machine
  activity : Activity

namespace Config

def Fails (c : Config) (e : Error) : Prop := c.activity.Fails c.ctx c.fuel c.machine e

noncomputable def rank (c : Config) : Nat ×ₗ Nat ×ₗ Nat := toLex (c.fuel, c.activity.rank)

/-- The second thing is done within the first, which fails if that does. An error in an imported
file is that of the import, unless it is fatal. -/
inductive Inner : Config → Config → Prop
  | within {ctx : Context} {fuel : Nat} {activity activity' : Activity} {m m' : Machine}
      (h : activity.Enters ctx fuel m activity' m') :
    Inner ⟨ctx, fuel, m, activity⟩ ⟨ctx, fuel, m', activity'⟩
  | body {ctx : Context} {f : UserFunction} {arguments : List Value} {m m' : Machine} (fuel : Nat)
      (h : f.Begins ctx arguments m m') :
    Inner ⟨ctx, fuel + 1, m, .call f arguments⟩
      ⟨ctx, fuel, m', .body f (.statements f.body.statements)⟩
  | file {ctx : Context} {fuel : Nat} {module : List String} {location : Location} {m : Machine}
      {source : String} {program : Block} (names : List Identifier) (span : Span)
      (hstandard : ¬isStandard module) (hlocate : locateModule ctx module = .ok location)
      (hloading : location ∉ m.world.loading)
      (hread : ctx.files.read (ctx.inside module).file = .ok source)
      (hparse : parseSource source (ctx.inside module).file = .ok program)
      (hfatal : ∀ e, Fails ⟨ctx.inside module, fuel, m.forFile location,
        .topLevels program.statements⟩ e → e.isFatal) :
    Inner ⟨ctx, fuel + 1, m, .topLevel (.importNames names module span)⟩
      ⟨ctx.inside module, fuel, m.forFile location, .topLevels program.statements⟩

variable {c c' : Config} {e e' : Error}

theorem Fails.unique (h : c.Fails e) (h' : c.Fails e') : e' = e := by
  obtain ⟨ctx, fuel, m, activity⟩ := c
  cases activity <;> exact Run.Fails.unique h h'

theorem Inner.debug_eq (h : c.Inner c') : c'.ctx.debug = c.ctx.debug := by
  cases h <;> rfl

/-- Of what is done within something only one thing fails. -/
theorem Inner.unique {c'' : Config} (h : c.Inner c') (h' : c.Inner c'') (hfails : c'.Fails e)
    (hfails' : c''.Fails e') : c'' = c' := by
  cases h with
  | within h =>
    cases h' with
    | within h' =>
      obtain ⟨rfl, rfl⟩ := h.unique h' hfails hfails'
      rfl
    | body => cases h
    | file =>
      cases h with
      | topLevelValue hvalue => cases hvalue
  | body fuel h =>
    cases h' with
    | within h' => cases h'
    | body _ h' =>
      cases h.bound.symm.trans h'.bound
      rfl
  | file names span _ hlocate _ hread hparse =>
    cases h' with
    | within h' =>
      cases h' with
      | topLevelValue hvalue => cases hvalue
    | file _ _ _ hlocate' _ hread' hparse' =>
      cases hlocate.symm.trans hlocate'
      cases hread.symm.trans hread'
      cases hparse.symm.trans hparse'
      rfl

theorem Inner.rank_lt (h : c.Inner c') : c'.rank < c.rank := by
  rw [rank, rank, Prod.Lex.toLex_lt_toLex]
  cases h with
  | within h => exact .inr ⟨rfl, h.rank_lt⟩
  | body fuel _ => exact .inl (Nat.lt_succ_self fuel)
  | file => exact .inl (Nat.lt_succ_self _)

theorem Inner.fails (hdebug : c.ctx.debug = false) (h : c.Inner c') (hfails : c'.Fails e) :
    c.Fails (e.leaves (c.activity.node? c'.activity)) := by
  cases h with
  | within h => exact h.fails hdebug hfails
  | body fuel h => exact h.fails hfails
  | file names span hstandard hlocate hloading hread hparse hfatal =>
    refine runImport_fails hstandard hlocate hloading (hfatal e hfails) ?_
    rwa [runModuleFile_eq hread hparse]

/-- What fails does so with something that is done within it, or has raised a cause itself. -/
theorem Fails.origin (hdebug : c.ctx.debug = false) (h : c.Fails e) :
    (∃ c' e', c.Inner c' ∧ c'.Fails e') ∨ ∃ cause, e = .ofCause cause := by
  obtain ⟨ctx, fuel, m, activity⟩ := c
  have hwithin (h : activity.Origin ctx fuel m e) :
      (∃ c' e', Inner ⟨ctx, fuel, m, activity⟩ c' ∧ c'.Fails e') ∨ ∃ cause, e = .ofCause cause :=
    h.imp_left fun ⟨_, _, e', henters, hfails⟩ => ⟨_, e', .within henters, hfails⟩
  cases activity with
  | expression expr => exact hwithin (Activity.origin_expression h)
  | expressions exprs => exact hwithin (Activity.origin_expressions h)
  | body f part => exact hwithin (Activity.origin_body hdebug h)
  | topLevels stmts => exact hwithin (Activity.origin_topLevels hdebug h)
  | call f arguments =>
    cases fuel with
    | zero =>
      obtain ⟨n, hn⟩ := h
      cases hn
    | succ fuel =>
      refine (fails_callFunction h).imp_left fun ⟨m', hbegins, hbody⟩ => ?_
      exact ⟨_, e, .body fuel hbegins, hbody⟩
  | topLevel stmt =>
    cases stmt with
    | importNames names module span =>
      refine (fails_runImport h).imp_left ?_
      rintro ⟨location, hstandard, hlocate, hloading, hfatal, hfile⟩
      obtain ⟨inner, source, program, rfl, hread, hparse, hstmts⟩ :=
        fails_runModuleFile hfatal hfile
      exact ⟨_, e, .file names span hstandard hlocate hloading hread hparse
        fun e' he' => he'.unique hstmts ▸ hfatal, hstmts⟩
    | _ => exact hwithin (Activity.origin_topLevel nofun h)

/-- An error with this cause is raised where `c` is being done, or somewhere within it. The
statements are those that are executed there within `c`, the innermost first. -/
inductive Raised : Config → Cause → List Node → Prop
  | here {c : Config} {e : Error} (hfails : c.Fails e)
      (hinner : ∀ c' e', c.Inner c' → ¬c'.Fails e') : Raised c e.cause []
  | inside {c c' : Config} {cause : Cause} {nodes : List Node} (hinner : c.Inner c')
      (h : Raised c' cause nodes) :
    Raised c cause (nodes ++ (c.activity.node? c'.activity).toList)

end Config

/-- The error with this cause that has been attributed to the innermost statement that does not
stand behind an `else`. -/
def Error.attributedTo (cause : Cause) (nodes : List Node) : Error :=
  match nodes.find? fun node => !node.behindElse with
  | some node => ⟨cause, node.position, some node.kind⟩
  | none => .ofCause cause

theorem Error.leaves_attributedTo (cause : Cause) (nodes : List Node) (node? : Option Node) :
    (attributedTo cause nodes).leaves node? = attributedTo cause (nodes ++ node?.toList) := by
  unfold attributedTo
  rw [List.find?_append]
  cases nodes.find? fun node => !node.behindElse with
  | some node => rcases node? with _ | ⟨kind, position, _ | _⟩ <;> rfl
  | none => rcases node? with _ | ⟨kind, position, _ | _⟩ <;> rfl

theorem Error.cause_leaves (e : Error) (node? : Option Node) :
    (e.leaves node?).cause = e.cause := by
  unfold leaves
  split
  · exact e.cause_atStatement _ _
  · rfl

namespace Config

theorem Raised.fails {c : Config} {cause : Cause} {nodes : List Node} (hdebug : c.ctx.debug = false)
    (h : c.Raised cause nodes) : c.Fails (.attributedTo cause nodes) := by
  induction h with
  | here hfails hinner =>
    obtain ⟨c', e', hc', he'⟩ | ⟨cause, rfl⟩ := hfails.origin hdebug
    · exact absurd he' (hinner c' e' hc')
    · exact hfails
  | inside hinner _ ih =>
    rw [← Error.leaves_attributedTo]
    exact hinner.fails hdebug (ih (hinner.debug_eq.trans hdebug))

theorem Raised.unique {c : Config} {cause cause' : Cause} {nodes nodes' : List Node}
    (hdebug : c.ctx.debug = false) (h : c.Raised cause nodes) (h' : c.Raised cause' nodes') :
    nodes' = nodes := by
  induction h generalizing cause' nodes' with
  | here _ hnone =>
    cases h' with
    | here => rfl
    | inside hinner h' =>
      exact absurd (h'.fails (hinner.debug_eq.trans hdebug)) (hnone _ _ hinner)
  | inside hinner h ih =>
    have hinside := hinner.debug_eq.trans hdebug
    cases h' with
    | here _ hnone => exact absurd (h.fails hinside) (hnone _ _ hinner)
    | inside hinner' h' =>
      obtain rfl := hinner.unique hinner' (h.fails hinside)
        (h'.fails (hinner'.debug_eq.trans hdebug))
      rw [ih hinside h']

/-- What fails has raised its error somewhere. -/
theorem Fails.raised {c : Config} {e : Error} (hdebug : c.ctx.debug = false) (h : c.Fails e) :
    ∃ nodes, c.Raised e.cause nodes := by
  by_cases hinner : ∃ c' e', c.Inner c' ∧ c'.Fails e'
  · obtain ⟨c', e', hc', he'⟩ := hinner
    obtain ⟨nodes, hnodes⟩ := he'.raised (hc'.debug_eq.trans hdebug)
    have hraised := Raised.inside hc' hnodes
    obtain rfl := Fails.unique h (hc'.fails hdebug he')
    exact ⟨_, (e'.cause_leaves _).symm ▸ hraised⟩
  · exact ⟨[], .here h fun c' e' hc' he' => hinner ⟨c', e', hc', he'⟩⟩
termination_by c.rank
decreasing_by exact hc'.rank_lt

/-- Within a statement or a branch of it there may be an `if` behind an `else`; what is entered from
elsewhere is no such statement. -/
theorem Inner.outermost {c c' : Config} (h : c.Inner c') (hc : ¬c.activity.InStatement) :
    (∃ node, c.activity.node? c'.activity = some node ∧ node.behindElse = false) ∨
      c.activity.node? c'.activity = none ∧ ¬c'.activity.InStatement := by
  cases h with
  | within h =>
    cases h with
    | part h =>
      cases h with
      | first stmt => exact .inl ⟨stmt.node, rfl, rfl⟩
      | branch | thenBlock | elseBlock | elseBranch | loop => exact absurd trivial hc
      | _ => exact .inr ⟨rfl, id⟩
    | value => exact absurd trivial hc
    | branchCondition => exact absurd trivial hc
    | firstTopLevel stmt => exact .inl ⟨stmt.node, rfl, rfl⟩
    | _ => exact .inr ⟨rfl, id⟩
  | _ => exact .inr ⟨rfl, id⟩

theorem Raised.find? {c : Config} {cause : Cause} {nodes : List Node} (h : c.Raised cause nodes)
    (hc : ¬c.activity.InStatement) (hnodes : nodes ≠ []) :
    ∃ node, (nodes.find? fun node => !node.behindElse) = some node := by
  induction h with
  | here => exact absurd rfl hnodes
  | inside hinner _ ih =>
    obtain ⟨node, hnode, hbehind⟩ | ⟨hnode, hc'⟩ := hinner.outermost hc
    · rw [hnode, ← Option.isSome_iff_exists]
      simp [hbehind]
    · rw [hnode, Option.toList_none, List.append_nil] at hnodes ⊢
      exact ih hc' hnodes

/-- A name that is not bound. -/
theorem Raised.symbol {ctx : Context} {m : Machine} {name : String} {cause : Cause} (fuel : Nat)
    (span : Span) (h : m.lookup name = .error cause) :
    Raised ⟨ctx, fuel, m, .expression (.symbol name span)⟩ cause [] := by
  have hfails : Fails ⟨ctx, fuel, m, .expression (.symbol name span)⟩ (.ofCause cause) := by
    simp only [Fails, Activity.Fails]
    rw [evaluate, Run.lookup, Run.Fails, Run.get_bind, h]
    exact ⟨_, rfl⟩
  refine .here hfails fun c' e' hinner => ?_
  cases hinner with
  | within h => cases h

end Config

/-- Where an error of a program is raised: at its top level, or in the call of its main function.
The statements are those that are executed there, the innermost first. -/
inductive RaisedIn (ctx : Context) (source : String) (m : Machine) : Nat → Cause → List Node → Prop
  | topLevel {fuel : Nat} {program : Block} {cause : Cause} {nodes : List Node}
      (hparse : parseSource source ctx.file = .ok program)
      (h : Config.Raised ⟨ctx, fuel, m, .topLevels program.statements⟩ cause nodes) :
    RaisedIn ctx source m (fuel + 1) cause nodes
  | main {fuel : Nat} {program : Block} {f : UserFunction} {n : Machine} {cause : Cause}
      {nodes : List Node} (hparse : parseSource source ctx.file = .ok program)
      (hmodule : runModule fuel ctx program.statements m = .ok () n)
      (hmain : n.lookupRoot "main" = .ok (.function f))
      (h : Config.Raised ⟨ctx, fuel, n, .call f [.list [.string ctx.file]]⟩ cause nodes) :
    RaisedIn ctx source m fuel cause nodes

/-- A program fails at its top level, or in the call of its main function. -/
theorem execute_eq_failed {ctx : Context} {fuel : Nat} {source : String} {m n : Machine}
    {e : Error} : execute fuel ctx source m = (.failed (.program e), n) ↔
      ∃ program, parseSource source ctx.file = .ok program ∧
        (runModule fuel ctx program.statements m = .error (.failed e) n ∨
          ∃ k main, runModule fuel ctx program.statements m = .ok () k ∧
            k.lookupRoot "main" = .ok main ∧
            callMain ctx fuel main k = .error (.failed e) n) := by
  have hstop (stop : Stop) (k : Machine) : (Outcome.ofStop stop, k) = (.failed (.program e), n) ↔
      stop = .failed e ∧ k = n := by
    cases stop <;> simp [Outcome.ofStop]
  unfold execute
  cases hparse : parseSource source ctx.file with
  | error errors => simp
  | ok program =>
    cases hmodule : runModule fuel ctx program.statements m with
    | error stop k => simp [hstop, hmodule]
    | ok _ k =>
      cases hmain : k.lookupRoot "main" with
      | error cause => simp [hmodule, hmain]
      | ok main =>
        cases hcall : callMain ctx fuel main k with
        | error stop k => simp [hstop, hmodule, hmain, hcall]
        | ok _ k => simp [hmodule, hmain, hcall]

theorem RaisedIn.unique {ctx : Context} (hdebug : ctx.debug = false) {source : String} {m : Machine}
    {fuel : Nat} {cause cause' : Cause} {nodes nodes' : List Node}
    (h : RaisedIn ctx source m fuel cause nodes) (h' : RaisedIn ctx source m fuel cause' nodes') :
    nodes' = nodes := by
  -- The main function is called only if the top level has not failed.
  have hapart {fuel : Nat} {program program' : Block} {n : Machine} {cause : Cause}
      {nodes : List Node} (hparse : parseSource source ctx.file = .ok program)
      (h : Config.Raised ⟨ctx, fuel, m, .topLevels program.statements⟩ cause nodes)
      (hparse' : parseSource source ctx.file = .ok program')
      (hmodule : runModule (fuel + 1) ctx program'.statements m = .ok () n) : False := by
    cases hparse.symm.trans hparse'
    exact Run.not_fails_of_ok hmodule (h.fails hdebug)
  cases h with
  | topLevel hparse h =>
    cases h' with
    | topLevel hparse' h' =>
      cases hparse.symm.trans hparse'
      exact h.unique hdebug h'
    | main hparse' hmodule' _ _ => exact (hapart hparse h hparse' hmodule').elim
  | main hparse hmodule hmain h =>
    cases h' with
    | topLevel hparse' h' => exact (hapart hparse' h' hparse hmodule).elim
    | main hparse' hmodule' hmain' h' =>
      cases hparse.symm.trans hparse'
      cases hmodule.symm.trans hmodule'
      cases hmain.symm.trans hmain'
      exact h.unique hdebug h'

/-- Unless in debug mode, an error in the top level of a program or in the call of its main function
is raised in one place, and the statements that are executed there are known. It is then reported at
the innermost one of them that does not stand behind an `else`, in whatever blocks, loops, functions
and files they stand. -/
theorem execute_attributed {ctx : Context} (hdebug : ctx.debug = false) (fuel : Nat)
    (source : String) (m : Machine) :
    (∀ e n, execute fuel ctx source m = (.failed (.program e), n) →
      (∃! nodes, RaisedIn ctx source m fuel e.cause nodes) ∨
      ∃ main, n.lookupRoot "main" = .ok main ∧ ∀ f, main ≠ .function f) ∧
    ∀ cause nodes, RaisedIn ctx source m fuel cause nodes → nodes ≠ [] →
      ∃ node, (nodes.find? fun node => !node.behindElse) = some node ∧
        (execute fuel ctx source m).1 =
          .failed (.program ⟨cause, node.position, some node.kind⟩) := by
  refine ⟨fun e n h => ?_, fun cause nodes hraised hnodes => ?_⟩
  · have hunique {nodes : List Node} (h : RaisedIn ctx source m fuel e.cause nodes) :
        ∃! nodes, RaisedIn ctx source m fuel e.cause nodes :=
      ⟨nodes, h, fun _ h' => h.unique hdebug h'⟩
    obtain ⟨program, hparse, htop | ⟨k, main, hmodule, hmain, hcall⟩⟩ := execute_eq_failed.1 h
    · cases fuel with
      | zero => cases htop
      | succ fuel =>
        have hfails : Config.Fails ⟨ctx, fuel, m, .topLevels program.statements⟩ e := ⟨n, htop⟩
        obtain ⟨nodes, hnodes⟩ := hfails.raised hdebug
        exact .inl (hunique (.topLevel hparse hnodes))
    · by_cases hfunction : ∃ f, main = .function f
      · obtain ⟨f, rfl⟩ := hfunction
        rw [LawfulTopLevels.callMain_function] at hcall
        obtain ⟨e', hfails, rfl⟩ := (Run.fails_attributedTo hdebug).1 ⟨n, hcall⟩
        have hfails : Config.Fails ⟨ctx, fuel, k, .call f [.list [.string ctx.file]]⟩ e' := hfails
        obtain ⟨nodes, hnodes⟩ := hfails.raised hdebug
        rw [← Error.cause_atStatement e' .function f.position] at hnodes
        exact .inl (hunique (.main hparse hmodule hmain hnodes))
      · have hne : ∀ f, main ≠ .function f := fun f heq => hfunction ⟨f, heq⟩
        rw [LawfulTopLevels.callMain_of_ne hne] at hcall
        refine .inr ⟨main, ?_, hne⟩
        rw [Machine.lookupRoot, (callValue_error hne hcall).2]
        exact hmain
  · suffices h : ∃ node, (nodes.find? fun node => !node.behindElse) = some node ∧
        ∃ n, execute fuel ctx source m =
          (.failed (.program ⟨cause, node.position, some node.kind⟩), n) by
      obtain ⟨node, hnode, n, hn⟩ := h
      exact ⟨node, hnode, by rw [hn]⟩
    cases hraised with
    | topLevel hparse h =>
      obtain ⟨node, hnode⟩ := h.find? id hnodes
      have hfails := h.fails hdebug
      rw [Error.attributedTo, hnode] at hfails
      obtain ⟨n, hn⟩ := hfails
      exact ⟨node, hnode, n, execute_eq_failed.2 ⟨_, hparse, .inl hn⟩⟩
    | @main _ _ f k _ _ hparse hmodule hmain h =>
      obtain ⟨node, hnode⟩ := h.find? id hnodes
      have hfails := h.fails hdebug
      rw [Error.attributedTo, hnode] at hfails
      obtain ⟨n, hn⟩ : (callMain ctx fuel (.function f)).Fails k _ := by
        rw [LawfulTopLevels.callMain_function]
        exact (Run.fails_attributedTo hdebug).2 ⟨_, hfails, rfl⟩
      exact ⟨node, hnode, n, execute_eq_failed.2
        ⟨_, hparse, .inr ⟨k, .function f, hmodule, hmain, hn⟩⟩⟩

/-- A program that only declares its main function. -/
def declaringMain (body : Block) (span : Span) : Block :=
  .mk [.function ⟨"main", 1⟩ [⟨⟨"argv", 1⟩, none⟩] none body span] span

/-- Such a program comes to the body of its main function. -/
theorem begins_declaringMain (body : Block) (span : Span) :
    let ctx : Context := ⟨"main.vi", false, 200, .standard, .empty⟩
    let f : UserFunction := ⟨0, "main", [(⟨"argv", 1⟩, none)], none, body, span.start⟩
    ∃ n m', runModule 4 ctx (declaringMain body span).statements (.first ctx (.empty none)) =
        .ok () n ∧
      n.lookupRoot "main" = .ok (.function f) ∧
      f.Begins ctx [.list [.string "main.vi"]] n m' ∧
      m'.lookup "missing" = .error (.variableNotDeclared "missing") ∧
      m'.enterScope.lookup "missing" = .error (.variableNotDeclared "missing") :=
  ⟨_, _, rfl, rfl, ⟨rfl, Nat.lt_of_sub_eq_succ rfl, rfl⟩, rfl, rfl⟩

private def mainSpan (start line stop line' : Nat) : Span :=
  ⟨⟨start, line, "main.vi"⟩, ⟨stop, line', "main.vi"⟩⟩

private def mainToken (kind : TokenKind) (text : String) (line start stop : Nat) : Token :=
  ⟨kind, text, mainSpan start line stop line⟩

/-- What stands in front of the body of the main function. -/
private def mainHead : List Token :=
  [mainToken .wordFn "fn" 1 0 2, mainToken .identifier "main" 1 3 7, mainToken .openParen "(" 1 7 8,
    mainToken .identifier "argv" 1 8 12, mainToken .closeParen ")" 1 12 13,
    mainToken .openCurly "\x7b" 1 14 15]

/-- The name is looked up in a statement of a block of a loop. -/
theorem execute_attributed_of_loop :
    let ctx : Context := ⟨"main.vi", false, 200, .standard, .empty⟩
    let source := "fn main(argv) \x7b\n    while true \x7b\n        missing;\n    \x7d\n\x7d"
    let m := Machine.first ctx (.empty none)
    let cause : Cause := .variableNotDeclared "missing"
    let inner : Node := ⟨.expression, ⟨41, 3, "main.vi"⟩, false⟩
    let outer : Node := ⟨.loop, ⟨20, 2, "main.vi"⟩, false⟩
    RaisedIn ctx source m 4 cause [inner, outer] ∧
      (execute 4 ctx source m).1 = .failed (.program ⟨cause, inner.position, some inner.kind⟩) := by
  intro ctx source m cause inner outer
  have htokens : tokenize source ctx.file = .ok (mainHead ++
      [mainToken .wordWhile "while" 2 20 25, mainToken .wordTrue "true" 2 26 30,
        mainToken .openCurly "\x7b" 2 31 32,
        mainToken .identifier "missing" 3 41 48, mainToken .semicolon ";" 3 48 49,
        mainToken .closeCurly "\x7d" 4 54 55, mainToken .closeCurly "\x7d" 5 56 57,
        .endOfFile ⟨57, 5, "main.vi"⟩]) := by
    decide +kernel
  let stmt : Stmt := .expression (.symbol "missing" (mainSpan 41 3 48 3)) (mainSpan 41 3 48 3)
  let always : Expr := .boolean true (mainSpan 26 2 30 2)
  let loop : Stmt := .loop always (.mk [stmt] (mainSpan 31 2 55 4)) (mainSpan 20 2 55 4)
  let body : Block := .mk [loop] (mainSpan 14 1 57 5)
  have hparse : parseSource source ctx.file = .ok (declaringMain body (mainSpan 0 1 57 5)) := by
    rw [parseSource, htokens]
    rfl
  obtain ⟨n, m', hmodule, hmain, hbegins, -, hmissing⟩ :=
    begins_declaringMain body (mainSpan 0 1 57 5)
  have hraised : RaisedIn ctx source m 4 cause [inner, outer] :=
    .main hparse hmodule hmain <|
      .inside (.body 3 hbegins) <|
      .inside (.within (.part (.first loop [] m'))) <|
      .inside (.within (.part (.loop always _ _ m'))) <|
      .inside (.within (.part (.turn _ 2 rfl))) <|
      .inside (.within (.part (.block [stmt] _ m'))) <|
      .inside (.within (.part (.first stmt [] m'.enterScope))) <|
      .inside (.within (.value _ rfl m'.enterScope)) <|
      .symbol 3 _ hmissing
  obtain ⟨node, hnode, hreported⟩ := (execute_attributed rfl 4 source m).2 _ _ hraised (by simp)
  cases hnode
  exact ⟨hraised, hreported⟩

/-- The name is looked up in the condition of the `if` behind the `else`, but the error is reported
at the first `if`. -/
theorem execute_misattributed_of_elseIf :
    let ctx : Context := ⟨"main.vi", false, 200, .standard, .empty⟩
    let source :=
      "fn main(argv) \x7b\n    if false \x7b\n    \x7d else if missing \x7b\n    \x7d\n\x7d"
    let m := Machine.first ctx (.empty none)
    let cause : Cause := .variableNotDeclared "missing"
    let inner : Node := ⟨.conditional, ⟨42, 3, "main.vi"⟩, true⟩
    let outer : Node := ⟨.conditional, ⟨20, 2, "main.vi"⟩, false⟩
    RaisedIn ctx source m 4 cause [inner, outer] ∧
      (execute 4 ctx source m).1 = .failed (.program ⟨cause, outer.position, some outer.kind⟩) := by
  intro ctx source m cause inner outer
  have htokens : tokenize source ctx.file = .ok (mainHead ++
      [mainToken .wordIf "if" 2 20 22, mainToken .wordFalse "false" 2 23 28,
        mainToken .openCurly "\x7b" 2 29 30,
        mainToken .closeCurly "\x7d" 3 35 36, mainToken .wordElse "else" 3 37 41,
        mainToken .wordIf "if" 3 42 44,
        mainToken .identifier "missing" 3 45 52, mainToken .openCurly "\x7b" 3 53 54,
        mainToken .closeCurly "\x7d" 4 59 60, mainToken .closeCurly "\x7d" 5 61 62,
        .endOfFile ⟨62, 5, "main.vi"⟩]) := by
    decide +kernel
  let other : Conditional := .mk (.symbol "missing" (mainSpan 45 3 52 3)) (.mk [] (mainSpan 53 3 60 4))
    .nothing (mainSpan 42 3 60 4)
  let branch : Conditional := .mk (.boolean false (mainSpan 23 2 28 2)) (.mk [] (mainSpan 29 2 36 3))
    (.conditional other) (mainSpan 20 2 60 4)
  let body : Block := .mk [.conditional branch] (mainSpan 14 1 62 5)
  have hparse : parseSource source ctx.file = .ok (declaringMain body (mainSpan 0 1 62 5)) := by
    rw [parseSource, htokens]
    rfl
  obtain ⟨n, m', hmodule, hmain, hbegins, hmissing, -⟩ :=
    begins_declaringMain body (mainSpan 0 1 62 5)
  have hraised : RaisedIn ctx source m 4 cause [inner, outer] :=
    .main hparse hmodule hmain <|
      .inside (.body 3 hbegins) <|
      .inside (.within (.part (.first (.conditional branch) [] m'))) <|
      .inside (.within (.part (.branch branch m'))) <|
      .inside (.within (.part (.elseBranch _ other _ rfl))) <|
      .inside (.within (.branchCondition _ _ _ _ _ m')) <|
      .symbol 3 _ hmissing
  exact ⟨hraised, Outcome.eq_of_error? (by decide +kernel)⟩

end Script

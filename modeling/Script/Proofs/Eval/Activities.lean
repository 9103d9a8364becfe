import Script.Proofs.Eval.Activation
import Script.Proofs.Eval.Failing
import Script.Proofs.Eval.Imports

/-!
# What is done within what

To evaluate an expression is to evaluate others within it, to call functions and to run their
bodies. If one of these fails, what it is done within fails with the same error, which is attributed
to the statement that it leaves, if it leaves one. The other way round, what fails does so with
something that is done within it, and with one such thing only, or else it has raised its error
itself. An `if` behind an `else` is a statement, but an error leaves it as it is.
-/

namespace Script

/-- A statement that is being executed. -/
structure Node where
  kind : StmtKind
  position : Position
  /-- The statement is an `if` behind the `else` of another one. -/
  behindElse : Bool

def Stmt.node (stmt : Stmt) : Node := ⟨stmt.kind, stmt.span.start, false⟩

/-- The `if` behind an `else`. -/
def Conditional.node (branch : Conditional) : Node := ⟨.conditional, branch.span.start, true⟩

/-- The expression whose value a statement uses. -/
def Stmt.value? : Stmt → Option Expr
  | declaration _ _ _ _ value _ | reassignment _ value _ | expression value _ => some value
  | returnValue value _ => value
  | _ => none

theorem Stmt.sizeOf_value {stmt : Stmt} {expr : Expr} (h : stmt.value? = some expr) :
    sizeOf expr < sizeOf stmt := by
  cases stmt with
  | returnValue value span =>
    obtain rfl : value = some expr := h
    simp
    omega
  | declaration | reassignment | expression =>
    cases h
    simp
    omega
  | _ => cases h

/-- What is being done. -/
inductive Activity where
  | expression (expr : Expr)
  | expressions (exprs : List Expr)
  | call (f : UserFunction) (arguments : List Value)
  | body (f : UserFunction) (part : Part)
  | topLevel (stmt : Stmt)
  | topLevels (stmts : List Stmt)

namespace Activity

/-- Doing the one thing comes down to other, smaller ones. -/
noncomputable def rank : Activity → Nat ×ₗ Nat
  | expression expr => toLex (sizeOf expr, 0)
  | expressions exprs => toLex (sizeOf exprs, 0)
  | call .. => toLex (0, 0)
  | body _ part => part.rank
  | topLevel stmt => toLex (sizeOf stmt, 0)
  | topLevels stmts => toLex (sizeOf stmts, 0)

/-- The statement that begins to be executed when the second thing is done within the first. -/
def node? : Activity → Activity → Option Node
  | body _ (.statements _), body _ (.statement stmt) => some stmt.node
  | body _ (.conditional _), body _ (.conditional branch) => some branch.node
  | topLevels _, topLevel stmt => some stmt.node
  | _, _ => none

/-- What is done is a statement of a body, or one of its branches. -/
def InStatement : Activity → Prop
  | body _ (.statement _) | body _ (.conditional _) => True
  | _ => False

section

variable (ctx : Context) (fuel : Nat)

/-- The activity fails with an error when it is done from a machine. -/
def Fails (m : Machine) (e : Error) : Activity → Prop
  | expression expr => (evaluate (callFunction ctx fuel) expr).Fails m e
  | expressions exprs => (evaluateAll (callFunction ctx fuel) exprs).Fails m e
  | call f arguments => (callFunction ctx fuel f arguments).Fails m e
  | body f part => (part.run ctx fuel f).Fails m e
  | topLevel stmt => (runTopLevel (runModule fuel) (callFunction ctx fuel) ctx stmt).Fails m e
  | topLevels stmts => (runTopLevels (runModule fuel) (callFunction ctx fuel) ctx stmts).Fails m e

/-- When the first thing is done from a machine, the second is done within it from another one. -/
inductive Enters : Activity → Machine → Activity → Machine → Prop
  | elements (exprs : List Expr) (span : Span) (m : Machine) :
    Enters (.expression (.list exprs span)) m (.expressions exprs) m
  | left (left : Expr) (operator : Operator BinaryOp) (right : Expr) (span : Span) (m : Machine) :
    Enters (.expression (.binary left operator right span)) m (.expression left) m
  | right {left : Expr} {operator : Operator BinaryOp} {op : Operation} {value : Value}
      {m n : Machine} (right : Expr) (span : Span) (hop : operator.op = .operation op)
      (h : evaluate (callFunction ctx fuel) left m = .ok value n) :
    Enters (.expression (.binary left operator right span)) m (.expression right) n
  | undecided {left : Expr} {operator : Operator BinaryOp} {op : Connective} {holds : Bool}
      {m n : Machine} (right : Expr) (span : Span) (hop : operator.op = .connective op)
      (h : evaluateCondition (callFunction ctx fuel) left m = .ok holds n)
      (hopen : holds = decide (op = .and)) :
    Enters (.expression (.binary left operator right span)) m (.expression right) n
  | operand (operator : Operator UnaryOp) (operand : Expr) (span : Span) (m : Machine) :
    Enters (.expression (.unary operator operand span)) m (.expression operand) m
  | callee (callee : Expr) (arguments : List Expr) (span : Span) (m : Machine) :
    Enters (.expression (.call callee arguments span)) m (.expression callee) m
  | arguments {callee : Expr} {value : Value} {m n : Machine} (arguments : List Expr) (span : Span)
      (h : evaluate (callFunction ctx fuel) callee m = .ok value n) :
    Enters (.expression (.call callee arguments span)) m (.expressions arguments) n
  | call {callee : Expr} {arguments : List Expr} {f : UserFunction} {values : List Value}
      {m n k : Machine} (span : Span)
      (hcallee : evaluate (callFunction ctx fuel) callee m = .ok (.function f) n)
      (harguments : evaluateAll (callFunction ctx fuel) arguments n = .ok values k) :
    Enters (.expression (.call callee arguments span)) m (.call f values) k
  | target (target index : Expr) (span : Span) (m : Machine) :
    Enters (.expression (.index target index span)) m (.expression target) m
  | index {target : Expr} {value : Value} {m n : Machine} (index : Expr) (span : Span)
      (h : evaluate (callFunction ctx fuel) target m = .ok value n) :
    Enters (.expression (.index target index span)) m (.expression index) n
  | first (expr : Expr) (others : List Expr) (m : Machine) :
    Enters (.expressions (expr :: others)) m (.expression expr) m
  | rest {expr : Expr} {value : Value} {m n : Machine} (others : List Expr)
      (h : evaluate (callFunction ctx fuel) expr m = .ok value n) :
    Enters (.expressions (expr :: others)) m (.expressions others) n
  | part {f : UserFunction} {part part' : Part} {m m' : Machine}
      (h : part.Enters ctx fuel f m part' m') :
    Enters (.body f part) m (.body f part') m'
  | value (f : UserFunction) {stmt : Stmt} {expr : Expr} (h : stmt.value? = some expr)
      (m : Machine) :
    Enters (.body f (.statement stmt)) m (.expression expr) m
  | branchCondition (f : UserFunction) (condition : Expr) (body : Block) (otherwise : Otherwise)
      (span : Span) (m : Machine) :
    Enters (.body f (.conditional (.mk condition body otherwise span))) m (.expression condition) m
  | loopCondition (f : UserFunction) (condition : Expr) (body : Block) (limit : Nat) (m : Machine) :
    Enters (.body f (.turns condition body (limit + 1))) m (.expression condition) m
  | topLevelValue {stmt : Stmt} {expr : Expr} (h : stmt.value? = some expr)
      (hkind : stmt.kind = .declaration ∨ stmt.kind = .reassignment) (m : Machine) :
    Enters (.topLevel stmt) m (.expression expr) m
  | firstTopLevel (stmt : Stmt) (others : List Stmt) (m : Machine) :
    Enters (.topLevels (stmt :: others)) m (.topLevel stmt) m
  | restTopLevels {stmt : Stmt} {m n : Machine} (others : List Stmt)
      (h : runTopLevel (runModule fuel) (callFunction ctx fuel) ctx stmt m = .ok () n) :
    Enters (.topLevels (stmt :: others)) m (.topLevels others) n

end

end Activity

/-! ### Errors of bodies -/

/-- The error as it leaves what is done, which may be a statement. -/
def Error.leaves (e : Error) : Option Node → Error
  | some ⟨kind, position, false⟩ => e.atStatement kind position
  | _ => e

section

variable {ctx : Context} {fuel : Nat} {f : UserFunction} {m n m' : Machine} {e : Error}

theorem fails_evaluateCondition {call : Caller} {expr : Expr} (h : (evaluate call expr).Fails m e) :
    (evaluateCondition call expr).Fails m e :=
  Run.fails_bind.2 (.inl h)

/-- The right operand counts if the left one is open. -/
theorem fails_connect {call : Caller} {op : Connective} {left right : Expr} :
    (connect op (evaluate call left) (evaluate call right)).Fails m e ↔
      (evaluateCondition call left).Fails m e ∨
      ∃ n, evaluateCondition call left m = .ok (decide (op = .and)) n ∧
        (evaluateCondition call right).Fails n e := by
  have hconnect : connect op (evaluate call left) (evaluate call right) =
      evaluateCondition call left >>= fun first =>
        if first = decide (op = .and) then .boolean <$> evaluateCondition call right
        else return .boolean first := by
    simp only [connect, evaluateCondition, bind_assoc, map_bind]
    refine congrArg _ (funext fun value => congrArg _ (funext fun first => ?_))
    cases op <;> cases first <;> simp
  rw [hconnect, Run.fails_bind]
  refine or_congr_right ⟨?_, ?_⟩
  · rintro ⟨first, n, hleft, hright⟩
    split at hright
    · next heq => exact ⟨n, heq ▸ hleft, Run.fails_map.1 hright⟩
    · exact absurd hright (Run.not_fails_pure _)
  · rintro ⟨n, hleft, hright⟩
    refine ⟨_, n, hleft, ?_⟩
    rw [if_pos rfl]
    exact Run.fails_map.2 hright

namespace Part

/-- A run of which another one follows if it goes on. -/
theorem fails_andThen {x y : Run Flow} :
    Run.Fails (do
      match ← x with
      | .next => y
      | .returned value => return .returned value) m e ↔
        x.Fails m e ∨ ∃ n, x m = .ok .next n ∧ y.Fails n e := by
  rw [Run.fails_bind]
  refine or_congr_right ⟨?_, fun ⟨n, hx, hy⟩ => ⟨.next, n, hx, hy⟩⟩
  rintro ⟨_ | value, n, hx, hy⟩
  · exact ⟨n, hx, hy⟩
  · exact absurd hy (Run.not_fails_pure _)

theorem fails_cons (hdebug : ctx.debug = false) {stmt : Stmt} {others : List Stmt} :
    (run ctx fuel f (.statements (stmt :: others))).Fails m e ↔
      (∃ e', (run ctx fuel f (.statement stmt)).Fails m e' ∧
        e = e'.atStatement stmt.kind stmt.span.start) ∨
      ∃ n, run ctx fuel f (.statement stmt) m = .ok .next n ∧
        (run ctx fuel f (.statements others)).Fails n e := by
  simp only [run, runStmts]
  refine fails_andThen.trans (or_congr (Run.fails_attributedTo hdebug) ?_)
  simp only [Run.attributed_eq_ok]

theorem fails_branch {condition : Expr} {body : Block} {otherwise : Otherwise} {span : Span} :
    (run ctx fuel f (.conditional (.mk condition body otherwise span))).Fails m e ↔
      (evaluateCondition (callFunction ctx fuel) condition).Fails m e ∨
      (∃ n, evaluateCondition (callFunction ctx fuel) condition m = .ok true n ∧
        (run ctx fuel f (.block body)).Fails n e) ∨
      ∃ n, evaluateCondition (callFunction ctx fuel) condition m = .ok false n ∧
        (runOtherwise ctx (callFunction ctx fuel) fuel f otherwise).Fails n e := by
  simp only [run, runConditional]
  rw [Run.fails_bind]
  simp [or_comm]

theorem fails_block {stmts : List Stmt} {span : Span} :
    (run ctx fuel f (.block (.mk stmts span))).Fails m e ↔
      (run ctx fuel f (.statements stmts)).Fails m.enterScope e := by
  simp only [run, runBlock]
  exact Run.fails_withScope

theorem fails_turns {condition : Expr} {body : Block} {limit : Nat} :
    (run ctx fuel f (.turns condition body (limit + 1))).Fails m e ↔
      (evaluateCondition (callFunction ctx fuel) condition).Fails m e ∨
      ∃ n, evaluateCondition (callFunction ctx fuel) condition m = .ok true n ∧
        ((run ctx fuel f (.block body)).Fails n e ∨
          ∃ k, run ctx fuel f (.block body) n = .ok .next k ∧
            (run ctx fuel f (.turns condition body limit)).Fails k e) := by
  simp only [run, repeatWhile_succ]
  refine Run.fails_bind.trans (or_congr_right ⟨?_, ?_⟩)
  · rintro ⟨_ | _, n, hcondition, hbody⟩
    · exact absurd hbody (Run.not_fails_pure _)
    · exact ⟨n, hcondition, fails_andThen.1 hbody⟩
  · rintro ⟨n, hcondition, hbody⟩
    exact ⟨true, n, hcondition, fails_andThen.2 hbody⟩

/-- A part of a body fails with what a part does that is run in it. -/
theorem Enters.fails (hdebug : ctx.debug = false) {part part' : Part}
    (h : Enters ctx fuel f part m part' m') (hpart : (run ctx fuel f part').Fails m' e) :
    (run ctx fuel f part).Fails m (e.leaves (Activity.node? (.body f part) (.body f part'))) := by
  cases h with
  | first stmt others _ => exact (fails_cons hdebug).2 (.inl ⟨e, hpart, rfl⟩)
  | rest others h => exact (fails_cons hdebug).2 (.inr ⟨m', h, hpart⟩)
  | branch branch _ => rwa [run_conditional]
  | thenBlock body otherwise span h => exact fails_branch.2 (.inr (.inl ⟨m', h, hpart⟩))
  | elseBlock body other span h =>
    refine fails_branch.2 (.inr (.inr ⟨m', h, ?_⟩))
    rwa [runOtherwise]
  | elseBranch body other span h =>
    refine fails_branch.2 (.inr (.inr ⟨m', h, ?_⟩))
    rwa [runOtherwise]
  | loop condition body span _ => rwa [run_loop]
  | turn body limit h => exact fails_turns.2 (.inr ⟨m', h, .inl hpart⟩)
  | nextTurn limit h hbody => exact fails_turns.2 (.inr ⟨_, h, .inr ⟨m', hbody, hpart⟩⟩)
  | block stmts span _ => exact fails_block.2 hpart

end Part

namespace Activity

theorem Enters.rank_lt {activity activity' : Activity}
    (h : Enters ctx fuel activity m activity' m') : activity'.rank < activity.rank := by
  cases h with
  | part h => exact h.rank_lt
  | value _ h _ | topLevelValue h _ _ =>
    simp only [rank, Part.rank, Prod.Lex.toLex_lt_toLex]
    exact .inl (Stmt.sizeOf_value h)
  | _ => simp +arith [rank, Part.rank, Prod.Lex.toLex_lt_toLex]

/-- An activity fails with what is done within it. -/
theorem Enters.fails (hdebug : ctx.debug = false) {activity activity' : Activity}
    (h : Enters ctx fuel activity m activity' m') (hfails : activity'.Fails ctx fuel m' e) :
    activity.Fails ctx fuel m (e.leaves (activity.node? activity')) := by
  cases h with
  | elements | operand | callee | target =>
    simp only [Fails]
    rw [evaluate]
    exact Run.fails_bind.2 (.inl hfails)
  | left left operator right span _ =>
    simp only [Fails]
    rw [evaluate]
    split
    · exact fails_connect.2 (.inl (fails_evaluateCondition hfails))
    · exact Run.fails_bind.2 (.inl hfails)
  | right right span hop h =>
    simp only [Fails]
    rw [evaluate, hop]
    exact Run.fails_bind.2 (.inr ⟨_, _, h, Run.fails_bind.2 (.inl hfails)⟩)
  | undecided right span hop h hopen =>
    subst hopen
    simp only [Fails]
    rw [evaluate, hop]
    exact fails_connect.2 (.inr ⟨m', h, fails_evaluateCondition hfails⟩)
  | arguments _ _ h | index _ _ h =>
    simp only [Fails]
    rw [evaluate]
    exact Run.fails_bind.2 (.inr ⟨_, _, h, Run.fails_bind.2 (.inl hfails)⟩)
  | call span hcallee harguments =>
    simp only [Fails]
    rw [evaluate]
    refine Run.fails_bind.2 (.inr ⟨_, _, hcallee, ?_⟩)
    exact Run.fails_bind.2 (.inr ⟨_, _, harguments, hfails⟩)
  | first expr others _ =>
    simp only [Fails]
    rw [evaluateAll]
    exact Run.fails_bind.2 (.inl hfails)
  | rest others h =>
    simp only [Fails]
    rw [evaluateAll]
    exact Run.fails_bind.2 (.inr ⟨_, _, h, Run.fails_bind.2 (.inl hfails)⟩)
  | part h => exact h.fails hdebug hfails
  | @value _ stmt expr h _ =>
    simp only [Fails, Part.run]
    cases stmt with
    | declaration | reassignment =>
      cases h
      rw [runStmt]
      exact Run.fails_bind.2 (.inl (Run.fails_bind.2 (.inl hfails)))
    | expression =>
      cases h
      rw [runStmt]
      exact Run.fails_bind.2 (.inl hfails)
    | returnValue value span =>
      obtain rfl : value = some expr := h
      rw [runStmt, runReturn_eq]
      exact Run.fails_bind.2 (.inl (Run.fails_map.2 hfails))
    | _ => cases h
  | branchCondition f condition body otherwise span _ =>
    exact Part.fails_branch.2 (.inl (fails_evaluateCondition hfails))
  | loopCondition f condition body limit _ =>
    exact Part.fails_turns.2 (.inl (fails_evaluateCondition hfails))
  | @topLevelValue stmt expr h hkind _ =>
    simp only [Fails]
    cases stmt with
    | declaration | reassignment =>
      cases h
      rw [runTopLevel]
      exact Run.fails_bind.2 (.inl hfails)
    | _ => rcases hkind with hkind | hkind <;> cases hkind
  | firstTopLevel stmt others _ =>
    simp only [Fails]
    rw [runTopLevels]
    exact Run.fails_bind.2 (.inl ((Run.fails_attributedTo hdebug).2 ⟨e, hfails, rfl⟩))
  | restTopLevels others h =>
    simp only [Fails]
    rw [runTopLevels]
    exact Run.fails_bind.2 (.inr ⟨(), m', Run.attributed_eq_ok.2 h, hfails⟩)

/-- The error is that of something done within the activity, or the activity itself has raised
it. -/
def Origin (ctx : Context) (fuel : Nat) (activity : Activity) (m : Machine) (e : Error) : Prop :=
  (∃ activity' m' e', Enters ctx fuel activity m activity' m' ∧ activity'.Fails ctx fuel m' e') ∨
    ∃ cause, e = .ofCause cause

theorem origin_of_plainBut {α : Type} {activity : Activity} {expr : Expr} {x : Run α}
    (henters : Enters ctx fuel activity m (.expression expr) m')
    (hx : x.PlainBut (evaluate (callFunction ctx fuel) expr)) (h : x.Fails m' e) :
    Origin ctx fuel activity m e :=
  (hx m' e h).imp_left fun hvalue => ⟨_, m', e, henters, hvalue⟩

theorem origin_expression {expr : Expr} (h : (expression expr).Fails ctx fuel m e) :
    Origin ctx fuel (.expression expr) m e := by
  simp only [Fails] at h
  cases expr with
  | number | string | boolean =>
    rw [evaluate] at h
    exact absurd h (Run.not_fails_pure _)
  | symbol name span =>
    rw [evaluate] at h
    exact .inr (Run.Plain.lookup name m e h)
  | list exprs span =>
    rw [evaluate] at h
    obtain h | ⟨_, _, -, h⟩ := Run.fails_bind.1 h
    · exact .inl ⟨_, _, e, .elements exprs span m, h⟩
    · exact absurd h (Run.not_fails_pure _)
  | binary left operator right span =>
    rw [evaluate] at h
    split at h
    · next op hop =>
      obtain hleft | ⟨n, hleft, hright⟩ := fails_connect.1 h
      · exact origin_of_plainBut (.left left operator right span m) (.evaluateCondition _ _) hleft
      · exact origin_of_plainBut (.undecided right span hop hleft rfl) (.evaluateCondition _ _)
          hright
    · next op hop =>
      obtain hleft | ⟨_, n, hleft, h⟩ := Run.fails_bind.1 h
      · exact .inl ⟨_, _, e, .left left operator right span m, hleft⟩
      obtain hright | ⟨_, k, -, h⟩ := Run.fails_bind.1 h
      · exact .inl ⟨_, _, e, .right right span hop hleft, hright⟩
      · exact .inr (Run.Plain.ofExcept _ k e h)
  | unary operator operand span =>
    rw [evaluate] at h
    exact origin_of_plainBut (.operand operator operand span m)
      (.bind (.refl _) fun _ => .ofExcept _) h
  | call callee arguments span =>
    rw [evaluate] at h
    obtain hcallee | ⟨value, n, hcallee, h⟩ := Run.fails_bind.1 h
    · exact .inl ⟨_, _, e, .callee callee arguments span m, hcallee⟩
    obtain harguments | ⟨values, k, harguments, h⟩ := Run.fails_bind.1 h
    · exact .inl ⟨_, _, e, .arguments arguments span hcallee, harguments⟩
    cases value with
    | function f => exact .inl ⟨_, _, e, .call span hcallee harguments, h⟩
    | native f => exact .inr (Run.Plain.callNative f values k e h)
    | _ => exact .inr (Run.Plain.raise _ k e h)
  | index target index span =>
    rw [evaluate] at h
    obtain htarget | ⟨_, n, htarget, h⟩ := Run.fails_bind.1 h
    · exact .inl ⟨_, _, e, .target target index span m, htarget⟩
    obtain hindex | ⟨_, k, -, h⟩ := Run.fails_bind.1 h
    · exact .inl ⟨_, _, e, .index index span htarget, hindex⟩
    · exact .inr (Run.Plain.bind (.ofExcept _) (fun _ => .ofExcept _) k e h)

theorem origin_expressions {exprs : List Expr} (h : (expressions exprs).Fails ctx fuel m e) :
    Origin ctx fuel (.expressions exprs) m e := by
  simp only [Fails] at h
  cases exprs with
  | nil =>
    rw [evaluateAll] at h
    exact absurd h (Run.not_fails_pure _)
  | cons expr exprs =>
    rw [evaluateAll] at h
    obtain hexpr | ⟨_, n, hexpr, h⟩ := Run.fails_bind.1 h
    · exact .inl ⟨_, _, e, .first expr exprs m, hexpr⟩
    obtain hexprs | ⟨_, _, -, h⟩ := Run.fails_bind.1 h
    · exact .inl ⟨_, _, e, .rest exprs hexpr, hexprs⟩
    · exact absurd h (Run.not_fails_pure _)

theorem origin_body {part : Part} (hdebug : ctx.debug = false)
    (h : (body f part).Fails ctx fuel m e) : Origin ctx fuel (.body f part) m e := by
  simp only [Fails] at h
  match part with
  | .statements [] =>
    simp only [Part.run, runStmts] at h
    exact absurd h (Run.not_fails_pure _)
  | .statements (stmt :: others) =>
    obtain ⟨e', hstmt, -⟩ | ⟨n, hstmt, hothers⟩ := (Part.fails_cons hdebug).1 h
    · exact .inl ⟨_, m, e', .part (.first stmt others m), hstmt⟩
    · exact .inl ⟨_, n, e, .part (.rest others hstmt), hothers⟩
  | .statement (.declaration name constant global ascription value span) =>
    simp only [Part.run, runStmt] at h
    exact origin_of_plainBut (.value f rfl m)
      ((Run.PlainBut.runDeclaration _ _ _ _ _ _).bind fun _ => .pure _) h
  | .statement (.reassignment name value span) =>
    simp only [Part.run, runStmt] at h
    exact origin_of_plainBut (.value f rfl m)
      ((Run.PlainBut.runReassignment _ _ _).bind fun _ => .pure _) h
  | .statement (.expression value span) =>
    simp only [Part.run, runStmt] at h
    exact origin_of_plainBut (.value f rfl m) ((Run.PlainBut.refl _).bind fun _ => .pure _) h
  | .statement (.returnValue (some value) span) =>
    simp only [Part.run, runStmt] at h
    exact origin_of_plainBut (.value f rfl m) (.runReturn _ _ _) h
  | .statement (.returnValue none span) =>
    simp only [Part.run, runStmt] at h
    exact .inr (Run.Plain.bind (.checkResult _ _) (fun _ => .pure _) m e h)
  | .statement (.importNames ..) | .statement (.function ..) =>
    simp only [Part.run, runStmt] at h
    exact .inr (Run.Plain.raise _ m e h)
  | .statement (.conditional branch) =>
    rw [Part.run_conditional] at h
    exact .inl ⟨_, m, e, .part (.branch branch m), h⟩
  | .statement (.loop condition block span) =>
    rw [Part.run_loop] at h
    exact .inl ⟨_, m, e, .part (.loop condition block span m), h⟩
  | .conditional (.mk condition block otherwise span) =>
    obtain hcondition | ⟨n, hcondition, hbody⟩ | ⟨n, hcondition, hother⟩ := Part.fails_branch.1 h
    · exact origin_of_plainBut (.branchCondition f condition block otherwise span m)
        (.evaluateCondition _ _) hcondition
    · exact .inl ⟨_, n, e, .part (.thenBlock block otherwise span hcondition), hbody⟩
    · cases otherwise with
      | nothing =>
        rw [runOtherwise] at hother
        exact absurd hother (Run.not_fails_pure _)
      | block other =>
        rw [runOtherwise] at hother
        exact .inl ⟨_, n, e, .part (.elseBlock block other span hcondition), hother⟩
      | conditional other =>
        rw [runOtherwise] at hother
        exact .inl ⟨_, n, e, .part (.elseBranch block other span hcondition), hother⟩
  | .block (.mk stmts span) =>
    exact .inl ⟨_, _, e, .part (.block stmts span m), Part.fails_block.1 h⟩
  | .turns condition block 0 =>
    obtain ⟨n, hn⟩ := h
    cases hn
  | .turns condition block (limit + 1) =>
    obtain hcondition | ⟨n, hcondition, hbody | ⟨k, hbody, hturns⟩⟩ := Part.fails_turns.1 h
    · exact origin_of_plainBut (.loopCondition f condition block limit m) (.evaluateCondition _ _)
        hcondition
    · exact .inl ⟨_, n, e, .part (.turn block limit hcondition), hbody⟩
    · exact .inl ⟨_, k, e, .part (.nextTurn limit hcondition hbody), hturns⟩

theorem origin_topLevels {stmts : List Stmt} (hdebug : ctx.debug = false)
    (h : (topLevels stmts).Fails ctx fuel m e) : Origin ctx fuel (.topLevels stmts) m e := by
  simp only [Fails] at h
  cases stmts with
  | nil =>
    rw [runTopLevels] at h
    exact absurd h (Run.not_fails_pure _)
  | cons stmt others =>
    rw [runTopLevels] at h
    obtain hstmt | ⟨_, n, hstmt, hothers⟩ := Run.fails_bind.1 h
    · obtain ⟨e', hstmt, -⟩ := (Run.fails_attributedTo hdebug).1 hstmt
      exact .inl ⟨_, m, e', .firstTopLevel stmt others m, hstmt⟩
    · exact .inl ⟨_, n, e, .restTopLevels others (Run.attributed_eq_ok.1 hstmt), hothers⟩

/-- An import may fail with what the imported file does. -/
theorem origin_topLevel {stmt : Stmt} (himport : stmt.kind ≠ .importNames)
    (h : (topLevel stmt).Fails ctx fuel m e) : Origin ctx fuel (.topLevel stmt) m e := by
  simp only [Fails] at h
  cases stmt with
  | declaration name constant global ascription value span =>
    exact origin_of_plainBut (.topLevelValue rfl (.inl rfl) m) (.runDeclaration _ _ _ _ _ _) h
  | reassignment name value span =>
    exact origin_of_plainBut (.topLevelValue rfl (.inr rfl) m) (.runReassignment _ _ _) h
  | function name parameters returns body span =>
    exact .inr (Run.Plain.runFunctionDeclaration _ _ _ _ _ m e h)
  | importNames names module span => exact absurd rfl himport
  | _ => exact .inr (Run.Plain.raise _ m e h)

theorem not_fails_of_condition {call : Caller} {expr : Expr} {holds : Bool}
    (h : evaluateCondition call expr m = .ok holds n) : ¬(evaluate call expr).Fails m e :=
  fun hfails => Run.not_fails_of_ok h (fails_evaluateCondition hfails)

/-- Of what is done within an activity only one thing fails. -/
theorem Enters.unique {activity activity' activity'' : Activity} {m'' : Machine} {e' : Error}
    (h : Enters ctx fuel activity m activity' m') (h' : Enters ctx fuel activity m activity'' m'')
    (hfails : activity'.Fails ctx fuel m' e) (hfails' : activity''.Fails ctx fuel m'' e') :
    activity'' = activity' ∧ m'' = m' := by
  cases h with
  | part h =>
    cases h' with
    | part h' =>
      obtain ⟨rfl, rfl⟩ | hbefore | hbefore := h.compare h'
      · exact ⟨rfl, rfl⟩
      · exact absurd hfails (Run.not_fails_of_ok hbefore)
      · exact absurd hfails' (Run.not_fails_of_ok hbefore)
    | value _ h' _ => cases h <;> cases h'
    | branchCondition | loopCondition =>
      cases h <;> exact absurd hfails' (not_fails_of_condition ‹_›)
  | value f h =>
    cases h' with
    | part h' => cases h' <;> cases h
    | value _ h' => exact ⟨congrArg _ (Option.some.inj (h'.symm.trans h)), rfl⟩
  | branchCondition | loopCondition =>
    cases h' with
    | part h' => cases h' <;> exact absurd hfails (not_fails_of_condition ‹_›)
    | _ => exact ⟨rfl, rfl⟩
  -- Of two expressions that are evaluated in turn the first has given a value.
  | _ => cases h' <;> simp_all only [Fails] <;> grind [Run.not_fails_of_ok, not_fails_of_condition]

end Activity

/-! ### Calls and imports -/

theorem fails_runBodyFor {arguments : List Value} :
    (runBodyFor ctx fuel f arguments f).Fails m e ↔
      (bindParameters f.parameters arguments).Fails (m.enterCall f).enterScope e ∨
      ∃ m', bindParameters f.parameters arguments (m.enterCall f).enterScope = .ok () m' ∧
        (Part.run ctx fuel f (.statements f.body.statements)).Fails m' e := by
  rw [runBodyFor, Run.fails_deeper]
  refine (Run.fails_withScope (m := m.enterCall f)).trans (Run.fails_bind.trans ?_)
  exact or_congr_right ⟨fun ⟨_, m', hbound, hbody⟩ => ⟨m', hbound, hbody⟩,
    fun ⟨m', hbound, hbody⟩ => ⟨(), m', hbound, hbody⟩⟩

theorem UserFunction.Begins.fails {arguments : List Value} (h : f.Begins ctx arguments m m')
    (hbody : (Part.run ctx fuel f (.statements f.body.statements)).Fails m' e) :
    (callFunction ctx (fuel + 1) f arguments).Fails m e := by
  rw [Run.Fails, Script.callFunction_eq h.checked h.depth]
  exact Run.fails_bind.2 (.inl (fails_runBodyFor.2 (.inr ⟨m', h.bound, hbody⟩)))

/-- A call is refused, or fails in the body, or comes to an end with nothing where it must not. -/
theorem fails_callFunction {arguments : List Value}
    (h : (callFunction ctx (fuel + 1) f arguments).Fails m e) :
    (∃ m', f.Begins ctx arguments m m' ∧
      (Part.run ctx fuel f (.statements f.body.statements)).Fails m' e) ∨
    ∃ cause, e = .ofCause cause := by
  cases hchecked : f.checkArguments arguments with
  | error cause =>
    rw [callFunction, hchecked] at h
    obtain hraise | ⟨_, _, hok, -⟩ := Run.fails_bind.1 h
    · exact .inr ⟨cause, Run.fails_raise hraise⟩
    · cases hok
  | ok _ =>
    obtain hdepth | hdepth := Nat.lt_or_ge m.depth ctx.maxDepth
    · rw [Run.Fails, callFunction_eq hchecked hdepth] at h
      obtain hbody | ⟨flow, n, -, hresult⟩ := Run.fails_bind.1 h
      · obtain hbind | ⟨m', hbound, hbody⟩ := fails_runBodyFor.1 hbody
        · exact .inr (Run.Plain.bindParameters _ _ _ e hbind)
        · exact .inl ⟨m', ⟨hchecked, hdepth, hbound⟩, hbody⟩
      · exact .inr (Run.Plain.resultOf f flow n e hresult)
    · rw [callFunction, hchecked] at h
      obtain ⟨n, hn⟩ := h
      change (if m.depth ≥ ctx.maxDepth then _ else _ : Run Value) m = _ at hn
      rw [if_pos hdepth] at hn
      cases hn
      exact .inr ⟨_, rfl⟩

theorem runModuleFile_eq {module : List String} {source : String} {program : Block}
    (hread : ctx.files.read (ctx.inside module).file = .ok source)
    (hparse : parseSource source (ctx.inside module).file = .ok program) :
    runModuleFile (runModule (fuel + 1)) ctx module =
      runTopLevels (runModule fuel) (callFunction (ctx.inside module) fuel) (ctx.inside module)
        program.statements := by
  have hread' : (ctx.inside module).files.read (ctx.inside module).file = .ok source := hread
  simp only [runModuleFile, runFile, runSource, hread', hparse, runModule]

/-- Only a run of its statements makes a file fail fatally. -/
theorem fails_runModuleFile {module : List String} (hfatal : e.isFatal)
    (h : (runModuleFile (runModule fuel) ctx module).Fails m e) :
    ∃ inner source program, fuel = inner + 1 ∧
      ctx.files.read (ctx.inside module).file = .ok source ∧
      parseSource source (ctx.inside module).file = .ok program ∧
      (Activity.topLevels program.statements).Fails (ctx.inside module) inner m e := by
  unfold runModuleFile runFile runSource at h
  rcases hread : (ctx.inside module).files.read (ctx.inside module).file with error | source
  · simp only [hread] at h
    cases Run.fails_raise h
    cases hfatal
  rcases hparse : parseSource source (ctx.inside module).file with (_ | ⟨e', others⟩) | program
  · exact absurd rfl (parseSource_error hparse).1
  · simp only [hread, hparse] at h
    obtain ⟨n, hn⟩ := h
    cases hn
    have hkind := (parseSource_error hparse).2 e List.mem_cons_self
    rw [Error.isFatal, hkind] at hfatal
    cases hfatal
  · simp only [hread, hparse] at h
    cases fuel with
    | zero =>
      obtain ⟨n, hn⟩ := h
      cases hn
    | succ inner => exact ⟨inner, source, program, rfl, hread, hparse, h⟩

/-- An import fails with what its file does only if that is fatal. -/
theorem fails_runImport {names : List Identifier} {module : List String}
    (h : (runImport (runModule fuel) ctx names module).Fails m e) :
    (∃ location, ¬isStandard module ∧ locateModule ctx module = .ok location ∧
      location ∉ m.world.loading ∧ e.isFatal ∧
      (runModuleFile (runModule fuel) ctx module).Fails (m.forFile location) e) ∨
    ∃ cause, e = .ofCause cause := by
  rw [runImport_eq] at h
  obtain hfind | ⟨found, n, -, hbind⟩ := Run.fails_bind.1 h
  · unfold findImported at hfind
    split at hfind
    · exact .inr (Run.Plain.ofExcept _ m e hfind)
    · next hstandard =>
      obtain ⟨n, hn⟩ := hfind
      have hsearch := fileSearch (runModule fuel) ctx module names m
      rw [hn] at hsearch
      generalize hresult : (EStateM.Result.error (.failed e) n :
        EStateM.Result Stop Machine (List (Identifier × Value))) = result at hsearch
      cases hsearch with
      | notFound | circular | missing =>
        cases hresult
        exact .inr ⟨_, rfl⟩
      | @failed location stop k hlocate hloading hrun =>
        cases stop with
        | outOfFuel => cases hresult
        | failed e' =>
          cases hresult
          unfold moduleError
          split
          · next hfatal => exact .inl ⟨location, hstandard, hlocate, hloading, hfatal, k, hrun⟩
          · exact .inr ⟨_, rfl⟩
      | found => cases hresult
  · exact .inr (Run.Plain.bindNames found n e hbind)

theorem runImport_fails {names : List Identifier} {module : List String} {location : Location}
    (hstandard : ¬isStandard module) (hlocate : locateModule ctx module = .ok location)
    (hloading : location ∉ m.world.loading) (hfatal : e.isFatal)
    (h : (runModuleFile (runModule fuel) ctx module).Fails (m.forFile location) e) :
    (runImport (runModule fuel) ctx names module).Fails m e := by
  obtain ⟨n, hn⟩ := h
  have hsearch : findInFile (runModule fuel) ctx module names m = _ :=
    (FileSearch.failed hlocate hloading hn).findInFile_eq
  rw [Stop.mapError, moduleError, if_pos hfatal] at hsearch
  exact ⟨_, runImport_of_error (by rw [findImported, if_neg hstandard, hsearch])⟩

end

end Script

import Script.Proofs.Eval.Evaluator
import Script.Proofs.Eval.Lockstep

/-!
# The evaluator keeps in step

Expressions and statements of function bodies run in step on machines that correspond, for any two
ways to call functions that do. Calling a function is such a way, by induction on the fuel. Only a
declaration binds a name in the active scope itself. Where something stands decides nothing: it is
told only to warnings and errors.
-/

namespace Script

/-- The names that a statement of a body itself declares in the active scope. -/
def Stmt.declares : Stmt → Set String
  | .declaration name _ false .. => {name.name}
  | _ => ∅

/-! ### Places -/

mutual

/-- What an expression evaluates to does not depend on where it stands. -/
theorem evaluate_move (δ : Displacement) (call : Caller) : (expr : Expr) →
    evaluate call (expr.move δ) = evaluate call expr
  | .number .. | .string .. | .boolean .. | .symbol .. => by rw [Expr.move, evaluate, evaluate]
  | .list elements _ => by
    rw [Expr.move, evaluate, evaluate, evaluateAll_move δ call elements]
  | .binary left operator right _ => by
    rw [Expr.move, evaluate, evaluate, evaluate_move δ call left, evaluate_move δ call right]
    rfl
  | .unary operator operand _ => by
    rw [Expr.move, evaluate, evaluate, evaluate_move δ call operand]
    rfl
  | .call callee arguments _ => by
    rw [Expr.move, evaluate, evaluate, evaluate_move δ call callee,
      evaluateAll_move δ call arguments]
  | .index target position _ => by
    rw [Expr.move, evaluate, evaluate, evaluate_move δ call target, evaluate_move δ call position]

theorem evaluateAll_move (δ : Displacement) (call : Caller) : (exprs : List Expr) →
    evaluateAll call (Expr.moveAll δ exprs) = evaluateAll call exprs
  | [] => by rw [Expr.moveAll]
  | expr :: exprs => by
    rw [Expr.moveAll, evaluateAll, evaluateAll, evaluate_move δ call expr,
      evaluateAll_move δ call exprs]

end

theorem resolve_move (δ : Displacement) (ascription : TypeExpr) :
    resolve (ascription.move δ) = resolve ascription := by
  induction ascription with
  | named name position => rfl
  | listOf element ih => rw [TypeExpr.move, resolve, resolve, ih]

theorem resolve?_move (δ : Displacement) (ascription : Option TypeExpr) :
    resolve? (ascription.map (TypeExpr.move δ)) = resolve? ascription := by
  cases ascription with
  | none => rfl
  | some ascription => rw [Option.map_some, resolve?, resolve?, resolve_move]

theorem bindParameters_move (δ : Displacement)
    (parameters : List (Identifier × Option DeclaredType)) (arguments : List Value) :
    bindParameters (parameters.map fun p => (p.1.move δ, p.2)) arguments =
      bindParameters parameters arguments := by
  induction parameters generalizing arguments with
  | nil => cases arguments <;> rfl
  | cons parameter parameters ih =>
    cases arguments with
    | nil => rfl
    | cons argument arguments =>
      rw [List.map_cons, bindParameters, bindParameters, ih]
      rfl

namespace Lockstep

variable {L : Lockstep} {own : Set String} {m m' : Machine}

/-- The callers do the same with arguments that correspond. -/
def Calls (L : Lockstep) (call call' : Caller) : Prop :=
  ∀ f arguments, (∀ value ∈ arguments, value.promote = value) →
    L.Along ∅ L.Valued (call f arguments) (call' (L.function f) (arguments.map L.value))

/-- The results are lists of promoted values that correspond. -/
def ValuedAll (L : Lockstep) (values values' : List Value) : Prop :=
  values' = values.map L.value ∧ ∀ value ∈ values, value.promote = value

/-- The second run allows as many calls to be in progress as the first one. It may allow more if it
need not follow the first one beyond its limit. -/
def Limits (L : Lockstep) (limit limit' : Nat) : Prop :=
  limit' = limit ∨ limit ≤ limit' ∧
    ∀ {m m'}, L.Rel m m' → L.Gone (m.raise (.callDepthExceeded limit)).raised

theorem Limits.le {limit limit' : Nat} (h : L.Limits limit limit') : limit ≤ limit' :=
  h.elim (fun heq => heq.ge) (fun h => h.1)

/-- The statements end alike, with values that correspond. -/
def Flows (L : Lockstep) : Flow → Flow → Prop
  | .next, flow => flow = .next
  | .returned value, flow => flow = .returned (L.value value)

namespace Lawful

variable (hL : L.Lawful)

include hL

theorem lookup_name (name : String) : L.Along own L.Valued (Run.lookup name) (Run.lookup name) := by
  intro m m' hm
  apply At.get
  apply hL.ofExcept_value hm
  rw [Machine.lookup, Machine.lookup, hL.active hm]
  exact hL.lookup hm m.active name

/-! ### Expressions -/

section

variable {call call' : Caller}

omit hL in
theorem callValue_of_typeOf {callee : Value} (h : callee.typeOf ≠ .function)
    (arguments : List Value) :
    Script.callValue call callee arguments = Run.raise (.notCallable callee.display) := by
  cases callee with
  | function f => exact absurd rfl h
  | native f => exact absurd rfl h
  | _ => rfl

theorem callValue (hcall : L.Calls call call') (callee : Value) {arguments : List Value}
    (h : ∀ value ∈ arguments, value.promote = value) :
    L.Along ∅ L.Valued (Script.callValue call callee arguments)
      (Script.callValue call' (L.value callee) (arguments.map L.value)) := by
  have hφ := hL.transparent
  by_cases hfunction : callee.typeOf = .function
  · cases callee with
    | function f =>
      rw [hφ.function]
      exact hcall f arguments h
    | native f =>
      rw [hφ.native]
      exact hL.callNative f h
    | thin literal => cases literal <;> cases hfunction
    | _ => cases hfunction
  · rw [callValue_of_typeOf hfunction, callValue_of_typeOf (by rwa [hφ.typeOf]), hφ.display]
    exact fun m m' hm => hL.raise hm _

theorem condition {own : Set String} {x x' : Run Value} (hx : L.Along own L.Valued x x') :
    L.Along own Same (do Run.ofExcept (← x).condition) (do Run.ofExcept (← x').condition) := by
  intro m m' hm
  refine hL.bind (hx m m' hm) fun value value' n n' hn hvalue => ?_
  exact hL.ofExcept_same hn (by rw [hvalue, hL.transparent.condition])

theorem connect (op : Connective) {left left' right right' : Run Value}
    (hleft : L.Along ∅ L.Valued left left') (hright : L.Along ∅ L.Valued right right') :
    L.Along ∅ L.Valued (Script.connect op left right) (Script.connect op left' right') := by
  intro m m' hm
  refine hL.bind (hleft m m' hm) fun value value' m m' hm hvalue => ?_
  refine hL.bind (hL.ofExcept_same hm (by rw [hvalue, hL.transparent.condition]))
    fun first first' m m' hm hfirst => ?_
  subst hfirst
  have hboolean (b : Bool) (m m' : Machine) (hm : L.Rel m m') :
      L.At ∅ L.Valued (pure (.boolean b)) (pure (.boolean b)) m m' :=
    hL.pure hm (hL.transparent.boolean b).symm
  split
  · exact hboolean _ m m' hm
  · exact hboolean _ m m' hm
  · refine hL.bind (hright m m' hm) fun value value' m m' hm hvalue => ?_
    refine hL.bind (hL.ofExcept_same hm (by rw [hvalue, hL.transparent.condition]))
      fun second second' m m' hm hsecond => ?_
    subst hsecond
    exact hboolean _ m m' hm

mutual

theorem evaluate (hcall : L.Calls call call') : (expr : Expr) →
    L.Along ∅ L.Valued (Script.evaluate call expr) (Script.evaluate call' expr)
  | .number n _ => fun m m' hm => by
    rw [Script.evaluate, Script.evaluate]
    exact hL.pure hm (hL.transparent.integer n).symm
  | .string s _ => fun m m' hm => by
    rw [Script.evaluate, Script.evaluate]
    exact hL.pure hm (hL.transparent.string s).symm
  | .boolean b _ => fun m m' hm => by
    rw [Script.evaluate, Script.evaluate]
    exact hL.pure hm (hL.transparent.boolean b).symm
  | .symbol name _ => by
    rw [Script.evaluate, Script.evaluate]
    exact hL.lookup_name name
  | .list elements _ => fun m m' hm => by
    rw [Script.evaluate, Script.evaluate]
    refine hL.bind (evaluateAll hcall elements m m' hm) fun values values' n n' hn hvalues => ?_
    exact hL.pure hn (by rw [hvalues.1, Valued, hL.transparent.list])
  | .binary left operator right _ => fun m m' hm => by
    rw [Script.evaluate, Script.evaluate]
    split
    · exact hL.connect _ (evaluate hcall left) (evaluate hcall right) m m' hm
    · refine hL.bind (evaluate hcall left m m' hm) fun first first' m m' hm hfirst => ?_
      refine hL.bind (evaluate hcall right m m' hm) fun second second' m m' hm hsecond => ?_
      refine hL.ofExcept_value hm ?_
      rw [hfirst, hsecond, hL.transparent.promote, hL.transparent.promote, hL.transparent.apply]
  | .unary operator operand _ => fun m m' hm => by
    rw [Script.evaluate, Script.evaluate]
    refine hL.bind (evaluate hcall operand m m' hm) fun value value' m m' hm hvalue => ?_
    refine hL.ofExcept_value hm ?_
    rw [hvalue, hL.transparent.promote, hL.transparent.unary_apply]
  | .call callee arguments _ => fun m m' hm => by
    rw [Script.evaluate, Script.evaluate]
    refine hL.bind (evaluate hcall callee m m' hm) fun f f' m m' hm hf => ?_
    refine hL.bind (evaluateAll hcall arguments m m' hm) fun values values' m m' hm hvalues => ?_
    rw [hf, hvalues.1]
    exact hL.callValue hcall f hvalues.2 m m' hm
  | .index target index _ => fun m m' hm => by
    rw [Script.evaluate, Script.evaluate]
    refine hL.bind (evaluate hcall target m m' hm) fun value value' m m' hm hvalue => ?_
    refine hL.bind (evaluate hcall index m m' hm) fun i i' m m' hm hi => ?_
    refine hL.bind (hL.ofExcept_same hm (by rw [hi, hL.transparent.asIndex]))
      fun position position' m m' hm hposition => ?_
    refine hL.ofExcept_value hm ?_
    rw [hvalue, hposition, hL.transparent.promote, hL.transparent.get]

theorem evaluateAll (hcall : L.Calls call call') : (exprs : List Expr) →
    L.Along ∅ L.ValuedAll (Script.evaluateAll call exprs) (Script.evaluateAll call' exprs)
  | [] => fun m m' hm => by
    rw [Script.evaluateAll, Script.evaluateAll]
    exact hL.pure hm ⟨rfl, nofun⟩
  | expr :: exprs => fun m m' hm => by
    rw [Script.evaluateAll, Script.evaluateAll]
    refine hL.bind (evaluate hcall expr m m' hm) fun value value' m m' hm hvalue => ?_
    refine hL.bind (evaluateAll hcall exprs m m' hm) fun values values' m m' hm hvalues => ?_
    refine hL.pure hm ⟨?_, List.forall_mem_cons.2 ⟨Value.promote_promote value, hvalues.2⟩⟩
    rw [hvalue, hvalues.1, hL.transparent.promote, List.map_cons]

end

theorem evaluateCondition (hcall : L.Calls call call') (expr : Expr) :
    L.Along ∅ Same (Script.evaluateCondition call expr) (Script.evaluateCondition call' expr) :=
  hL.condition (hL.evaluate hcall expr)

end

theorem resolve (ascription : TypeExpr) :
    L.Along ∅ Same (Script.resolve ascription) (Script.resolve ascription) := by
  induction ascription with
  | named name position =>
    intro m m' hm
    apply At.get
    have hresult : m'.lookup name = (m.lookup name).map L.value := by
      rw [Machine.lookup, Machine.lookup, hL.active hm]
      exact hL.lookup hm m.active name
    rw [hresult]
    cases m.lookup name with
    | error cause => exact hL.raise hm _
    | ok value =>
      by_cases htype : value.typeOf = .type
      · cases value with
        | type t =>
          simp only [Except.map, hL.transparent.type]
          exact hL.pure hm rfl
        | thin literal => cases literal <;> cases htype
        | _ => cases htype
      · split
        · next heq => exact absurd (by rw [Except.ok.inj heq]; rfl) htype
        · split
          · next heq =>
            rw [← hL.transparent.typeOf, Except.ok.inj heq] at htype
            exact absurd rfl htype
          · exact hL.raise hm _
  | listOf element ih =>
    intro m m' hm
    rw [Script.resolve]
    refine hL.bind (ih m m' hm) fun declared declared' m m' hm hdeclared => ?_
    exact hL.pure hm (by rw [hdeclared, Same])

theorem resolve? (ascription : Option TypeExpr) :
    L.Along ∅ Same (Script.resolve? ascription) (Script.resolve? ascription) := by
  intro m m' hm
  cases ascription with
  | none => exact hL.pure hm rfl
  | some ascription =>
    refine hL.bind (hL.resolve ascription m m' hm) fun declared declared' m m' hm hdeclared => ?_
    exact hL.pure hm (by rw [hdeclared, Same])

/-! ### Statements -/

section

variable {ctx ctx' : Context} {call call' : Caller} {fuel : Nat} {f : UserFunction}

theorem repeatWhile {condition condition' : Run Bool} {body body' : Run Flow}
    (hcondition : L.Along ∅ Same condition condition') (hbody : L.Along ∅ L.Flows body body')
    (fuel : Nat) :
    L.Along ∅ L.Flows (Script.repeatWhile condition body fuel)
      (Script.repeatWhile condition' body' fuel) := by
  induction fuel with
  | zero => exact fun m m' hm => hL.outOfFuel hm
  | succ fuel ih =>
    intro m m' hm
    rw [repeatWhile_succ, repeatWhile_succ]
    refine hL.bind (hcondition m m' hm) fun holds holds' m m' hm hsame => ?_
    subst hsame
    split
    · refine hL.bind (hbody m m' hm) fun flow flow' m m' hm hflow => ?_
      cases flow with
      | next =>
        subst hflow
        exact ih m m' hm
      | returned value =>
        subst hflow
        exact hL.pure hm rfl
    · exact hL.pure hm rfl

theorem runDeclaration (hcall : L.Calls call call') (name : Identifier) (constant global : Bool)
    (ascription : Option TypeExpr) (value : Expr) :
    L.Along (if global then ∅ else {name.name}) Ended
      (Script.runDeclaration call name constant global ascription value)
      (Script.runDeclaration call' (name.move L.displacement) constant global
        (ascription.map (TypeExpr.move L.displacement)) (value.move L.displacement)) := by
  have hdeclare (value : Value) {m m' : Machine} (hm : L.Rel m m') :
      L.At (if global then ∅ else {name.name}) Ended
        (if global then Run.declareGlobal name value constant
          else do Run.declare (← get).active name value constant)
        (if global then Run.declareGlobal (name.move L.displacement) (L.value value) constant
          else do Run.declare (← get).active (name.move L.displacement) (L.value value) constant)
        m m' := by
    cases global with
    | true => exact hL.declareGlobal name value constant m m' hm
    | false => exact .get (hL.declare hm name value constant)
  intro m m' hm
  rw [Script.runDeclaration, Script.runDeclaration, evaluate_move]
  refine hL.bind (hL.widen (hL.evaluate hcall value m m' hm)) fun value value' m m' hm hvalue => ?_
  rw [hvalue, hL.transparent.promote]
  cases ascription with
  | none => exact hdeclare value.promote hm
  | some ascription =>
    simp only [Option.map_some, resolve_move]
    refine hL.bind (hL.widen (hL.resolve ascription m m' hm))
      fun declared declared' m m' hm hdeclared => ?_
    have hcheck : declared'.check (L.value value.promote) = declared.check value.promote := by
      rw [hdeclared, hL.transparent.check]
    exact hL.bind (hL.ofExcept_same hm hcheck) fun _ _ m m' hm _ => hdeclare value.promote hm

theorem runReassignment (hcall : L.Calls call call') (name : Identifier) (value : Expr) :
    L.Along ∅ Ended (Script.runReassignment call name value)
      (Script.runReassignment call' (name.move L.displacement) (value.move L.displacement)) := by
  intro m m' hm
  rw [Script.runReassignment, Script.runReassignment, evaluate_move]
  refine hL.bind (hL.evaluate hcall value m m' hm) fun value value' m m' hm hvalue => ?_
  rw [hvalue]
  exact hL.reassign name.name value m m' hm

theorem runReturn (hcall : L.Calls call call') (value : Option Expr) :
    L.Along ∅ L.Flows (Script.runReturn call f value)
      (Script.runReturn call' (L.function f) (value.map (Expr.move L.displacement))) := by
  have hrest (value : Value) {m m' : Machine} (hm : L.Rel m m') :
      L.At ∅ L.Flows
        (do
          Run.checkResult f value
          return Flow.returned value)
        (do
          Run.checkResult (L.function f) (L.value value)
          return Flow.returned (L.value value)) m m' :=
    hL.bind (hL.checkResult f value m m' hm) fun _ _ m m' hm _ => hL.pure hm rfl
  intro m m' hm
  cases value with
  | none =>
    have hvoid := hrest .void hm
    rw [hL.transparent.void] at hvoid
    exact hvoid
  | some expr =>
    rw [Option.map_some, runReturn_some, runReturn_some, evaluate_move]
    refine hL.bind (hL.evaluate hcall expr m m' hm) fun value value' m m' hm hvalue => ?_
    rw [hvalue, hL.transparent.promote]
    exact hrest value.promote hm

theorem condition_moved (hcall : L.Calls call call') (expr : Expr) :
    L.Along ∅ Same (Script.evaluateCondition call expr)
      (Script.evaluateCondition call' (expr.move L.displacement)) := by
  rw [Script.evaluateCondition, Script.evaluateCondition, evaluate_move]
  exact hL.evaluateCondition hcall expr

mutual

/-- A statement runs in step with the same one at another place. -/
theorem runStmt_moved (hcall : L.Calls call call') (hctx : L.Attributes ctx ctx') :
    (stmt : Stmt) →
    L.Along stmt.declares L.Flows (Script.runStmt ctx call fuel f stmt)
      (Script.runStmt ctx' call' fuel (L.function f) (stmt.move L.displacement))
  | .declaration name constant global ascription value _ => fun m m' hm => by
    rw [Stmt.move, Script.runStmt, Script.runStmt]
    have hdeclares : Stmt.declares (.declaration name constant global ascription value ‹_›) =
        if global then ∅ else {name.name} := by
      cases global <;> rfl
    rw [hdeclares]
    exact hL.bind (hL.runDeclaration hcall name constant global ascription value m m' hm)
      fun _ _ m m' hm _ => hL.pure hm rfl
  | .reassignment name value _ => fun m m' hm => by
    rw [Stmt.move, Script.runStmt, Script.runStmt]
    exact hL.bind (hL.runReassignment hcall name value m m' hm)
      fun _ _ m m' hm _ => hL.pure hm rfl
  | .returnValue value _ => by
    rw [Stmt.move, Script.runStmt, Script.runStmt]
    exact hL.runReturn hcall value
  | .expression value _ => fun m m' hm => by
    rw [Stmt.move, Script.runStmt, Script.runStmt, evaluate_move]
    exact hL.bind (hL.evaluate hcall value m m' hm) fun _ _ m m' hm _ => hL.pure hm rfl
  | .conditional branch => by
    rw [Stmt.move, Script.runStmt, Script.runStmt]
    exact runConditional_moved hcall hctx branch
  | .loop condition body _ => by
    rw [Stmt.move, Script.runStmt, Script.runStmt]
    exact hL.repeatWhile (hL.condition_moved hcall condition) (runBlock_moved hcall hctx body) fuel
  | .importNames .. => fun m m' hm => by
    rw [Stmt.move, Script.runStmt, Script.runStmt]
    exact hL.raise hm _
  | .function .. => fun m m' hm => by
    rw [Stmt.move, Script.runStmt, Script.runStmt]
    exact hL.raise hm _

theorem runConditional_moved (hcall : L.Calls call call') (hctx : L.Attributes ctx ctx') :
    (branch : Conditional) →
    L.Along ∅ L.Flows (Script.runConditional ctx call fuel f branch)
      (Script.runConditional ctx' call' fuel (L.function f) (branch.move L.displacement))
  | .mk condition body otherwise _ => fun m m' hm => by
    rw [Conditional.move, Script.runConditional, Script.runConditional]
    refine hL.bind (hL.condition_moved hcall condition m m' hm) fun holds _ m m' hm hsame => ?_
    subst hsame
    split
    · exact runBlock_moved hcall hctx body m m' hm
    · exact runOtherwise_moved hcall hctx otherwise m m' hm

theorem runOtherwise_moved (hcall : L.Calls call call') (hctx : L.Attributes ctx ctx') :
    (otherwise : Otherwise) →
    L.Along ∅ L.Flows (Script.runOtherwise ctx call fuel f otherwise)
      (Script.runOtherwise ctx' call' fuel (L.function f) (otherwise.move L.displacement))
  | .nothing => fun m m' hm => by
    rw [Otherwise.move, Script.runOtherwise, Script.runOtherwise]
    exact hL.pure hm rfl
  | .block body => by
    rw [Otherwise.move, Script.runOtherwise, Script.runOtherwise]
    exact runBlock_moved hcall hctx body
  | .conditional branch => by
    rw [Otherwise.move, Script.runOtherwise, Script.runOtherwise]
    exact runConditional_moved hcall hctx branch

theorem runBlock_moved (hcall : L.Calls call call') (hctx : L.Attributes ctx ctx') :
    (block : Block) →
    L.Along ∅ L.Flows (Script.runBlock ctx call fuel f block)
      (Script.runBlock ctx' call' fuel (L.function f) (block.move L.displacement))
  | .mk statements _ => fun m m' hm => by
    rw [Block.move, Script.runBlock, Script.runBlock]
    exact .get (hL.withScope hm (runStmts_moved hcall hctx statements))

theorem runStmts_moved (hcall : L.Calls call call') (hctx : L.Attributes ctx ctx') :
    (stmts : List Stmt) →
    L.Along .univ L.Flows (Script.runStmts ctx call fuel f stmts)
      (Script.runStmts ctx' call' fuel (L.function f) (Stmt.moveAll L.displacement stmts))
  | [] => fun m m' hm => by
    rw [Stmt.moveAll, Script.runStmts, Script.runStmts]
    exact hL.pure hm rfl
  | stmt :: stmts => fun m m' hm => by
    rw [Stmt.moveAll, Script.runStmts, Script.runStmts]
    have hstmt := hL.weaken (runStmt_moved hcall hctx stmt m m' hm) (Set.subset_univ _)
    refine hL.bind (hstmt.attributed hctx) fun flow flow' m m' hm hflow => ?_
    cases flow with
    | next =>
      subst hflow
      exact runStmts_moved hcall hctx stmts m m' hm
    | returned value =>
      subst hflow
      exact hL.pure hm rfl

end

/-- A statement runs in step with itself. -/
theorem runStmt [L.Exact] (hcall : L.Calls call call') (hdebug : ctx'.debug = ctx.debug)
    (stmt : Stmt) : L.Along stmt.declares L.Flows (Script.runStmt ctx call fuel f stmt)
      (Script.runStmt ctx' call' fuel (f.renumber L.number) stmt) := by
  have hstmt : L.Along stmt.declares L.Flows (Script.runStmt ctx call fuel f stmt)
      (Script.runStmt ctx' call' fuel (L.function f) (stmt.move L.displacement)) :=
    hL.runStmt_moved hcall (.of_debug hdebug) stmt
  rwa [Exact.displacement, Stmt.move_id, function_of_exact] at hstmt

end

/-! ### Calls -/

theorem bindParameters (parameters : List (Identifier × Option DeclaredType))
    (arguments : List Value) :
    L.Along .univ Ended (Script.bindParameters parameters arguments)
      (Script.bindParameters parameters (arguments.map L.value)) := by
  induction parameters generalizing arguments with
  | nil => cases arguments <;> exact fun m m' hm => hL.pure hm trivial
  | cons parameter parameters ih =>
    cases arguments with
    | nil => exact fun m m' hm => hL.pure hm trivial
    | cons argument arguments =>
      intro m m' hm
      rw [List.map_cons, Script.bindParameters, Script.bindParameters]
      have hparameter := hL.bindParameter hm parameter.1.name argument
      exact .get (hL.bind (hL.weaken hparameter (Set.subset_univ _))
        fun _ _ m m' hm _ => ih arguments m m' hm)

theorem resultOf (f : UserFunction) {flow flow' : Flow} (h : L.Flows flow flow') :
    L.Along ∅ L.Valued (Script.resultOf f flow) (Script.resultOf (L.function f) flow') := by
  intro m m' hm
  cases flow with
  | returned value =>
    subst h
    exact hL.pure hm rfl
  | next =>
    subst h
    simp only [Script.resultOf, function, UserFunction.renumber, UserFunction.move]
    have hvoid {m m' : Machine} (hm : L.Rel m m') :
        L.At ∅ L.Valued (pure .void) (pure .void) m m' :=
      hL.pure hm hL.transparent.void.symm
    cases f.returns with
    | none => exact hvoid hm
    | some declared => exact hL.bind (hL.ofExcept_same hm rfl) fun _ _ m m' hm _ => hvoid hm

theorem callFunction_within {ctx ctx' : Context} (hctx : L.Attributes ctx ctx')
    (hlimits : L.Limits ctx.maxDepth ctx'.maxDepth) (fuel : Nat) :
    L.Calls (Script.callFunction ctx fuel) (Script.callFunction ctx' fuel) := by
  induction fuel with
  | zero => exact fun f arguments _ m m' hm => hL.outOfFuel hm
  | succ fuel ih =>
    intro f arguments hpromoted m m' hm
    rw [Script.callFunction, Script.callFunction]
    have hcheck : (L.function f).checkArguments (arguments.map L.value) =
        f.checkArguments arguments := hL.transparent.checkArguments f arguments
    refine hL.bind (hL.ofExcept_same hm hcheck) fun _ _ m m' hm _ => .get ?_
    have hparameters : Script.bindParameters (L.function f).parameters (arguments.map L.value) =
        Script.bindParameters f.parameters (arguments.map L.value) := bindParameters_move ..
    have hstatements : (L.function f).body.statements =
        Stmt.moveAll L.displacement f.body.statements := by
      rw [Stmt.moveAll_eq_map]
      exact Block.statements_move ..
    have hbody : L.At ∅ L.Valued
        (do
          let flow ← Run.deeper f <| Run.withScope m.active do
            Script.bindParameters f.parameters arguments
            Script.runStmts ctx (Script.callFunction ctx fuel) fuel f f.body.statements
          Script.resultOf f flow)
        (do
          let flow ← Run.deeper (L.function f) <| Run.withScope m'.active do
            Script.bindParameters (L.function f).parameters (arguments.map L.value)
            Script.runStmts ctx' (Script.callFunction ctx' fuel) fuel (L.function f)
              (L.function f).body.statements
          Script.resultOf (L.function f) flow) m m' := by
      rw [hparameters, hstatements]
      refine hL.bind (hL.deeper hm ?_) fun flow flow' m m' hm hflow => hL.resultOf f hflow m m' hm
      refine hL.withScope (hL.enterCall hm f) fun m m' hm => ?_
      refine hL.bind (hL.bindParameters f.parameters arguments m m' hm) fun _ _ m m' hm _ => ?_
      exact hL.runStmts_moved ih hctx f.body.statements m m' hm
    rw [hL.depth hm]
    by_cases hdepth : m.depth ≥ ctx.maxDepth
    · rw [if_pos hdepth]
      obtain hsame | hgone := hlimits
      · rw [hsame, if_pos hdepth]
        exact hL.bind (Q := fun _ _ => False) (hL.raise hm _) fun _ _ _ _ _ h => h.elim
      · exact .of_gone (Run.bind_of_error rfl) (hgone.2 hm)
    · have hdepth' : ¬m.depth ≥ ctx'.maxDepth :=
        fun h => hdepth (hlimits.le.trans h)
      rw [if_neg hdepth, if_neg hdepth']
      exact hbody

theorem callFunction [L.Exact] {ctx ctx' : Context} (hdebug : ctx'.debug = ctx.debug)
    (hmaxDepth : ctx'.maxDepth = ctx.maxDepth) (fuel : Nat) :
    L.Calls (Script.callFunction ctx fuel) (Script.callFunction ctx' fuel) :=
  hL.callFunction_within (.of_debug hdebug) (.inl hmaxDepth) fuel

end Lawful

end Lockstep

end Script

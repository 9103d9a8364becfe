import Script.Proofs.Eval.Keeps

/-!
# The evaluator keeps machines sound

Expressions are followed along their trees, and statements of function bodies along theirs, for any
way to call functions that keeps machines sound. Calling a function is such a way, by induction on
the fuel: its body is run with calls of less fuel.
-/

namespace Script

open Machine

variable {limit : Nat} {m : Machine}

theorem Run.map_eq_bind (f : α → β) (x : Run α) : f <$> x = x >>= fun a => Pure.pure (f a) := by
  funext m
  change EStateM.map f x m = EStateM.bind x _ m
  unfold EStateM.map EStateM.bind
  cases x m <;> rfl

namespace Keeps

theorem pure (a : α) : Keeps limit (Pure.pure a) :=
  fun _ _ => .pure trivial

theorem bind {x : Run α} {f : α → Run β} (hx : Keeps limit x) (hf : ∀ a, Keeps limit (f a)) :
    Keeps limit (x >>= f) :=
  fun m hm => .andThen hm (hx m hm) hf

theorem get {f : Machine → Run α}
    (h : ∀ m, m.now.Sound limit → KeepsAt limit (fun _ => True) (f m) m) :
    Keeps limit (MonadState.get >>= f) :=
  fun m hm => .get (h m hm)

theorem raise {cause : Cause} (h : cause.kind ≠ .fatal) : Keeps limit (Run.raise cause : Run α) :=
  fun _ _ => .raise h

theorem ofExcept {result : Except Cause α} (h : Harmless result) :
    Keeps limit (Run.ofExcept result) :=
  fun _ _ => .ofExcept h fun _ _ => trivial

end Keeps

/-! ### Names -/

theorem keeps_lookup (name : String) : Keeps limit (Run.lookup name) :=
  .get fun m hm => by
    obtain ⟨ids, hc, hn⟩ := hm.linked.chain hm.linked.isLive_active
    exact .ofExcept (hc.harmless_lookup hn name) fun _ _ => trivial

theorem KeepsAt.declare (hm : m.now.Sound limit) {scope : ScopeId} (hlive : m.arena.isLive scope)
    (name : Identifier) (value : Value) (constant : Bool) :
    KeepsAt limit (fun _ => True) (Run.declare scope name value constant) m := by
  obtain ⟨ids, hc, hn⟩ := hm.linked.chain hlive
  have hharmless := hc.harmless_declare hn name value constant
  apply get
  rcases hdeclare : m.arena.declare scope name value constant with ⟨warning, result⟩
  have hresult : (m.arena.declare scope name value constant).2 = result := by rw [hdeclare]
  have hbind (m' : Machine) (hm' : m'.now.Sound limit) (harena : m'.arena = m.arena) :
      KeepsAt limit (fun _ => True) (do
        let declared ← Run.ofExcept result
        Run.update fun s => { s with arena := declared.2 }) m' := by
    cases result with
    | error cause => exact .raise (hharmless cause hresult)
    | ok declared =>
      have hshape := Arena.sameShape_declare hresult
      rw [← harena] at hshape
      exact .bind_of_ok rfl (.refl m') (.update hm' ⟨hshape, rfl, rfl, rfl, by simp⟩)
  cases warning with
  | none => exact hbind m hm rfl
  | some warning =>
    have hpasses : Passes limit m (m.step fun s =>
        { s with world.warnings := s.world.warnings.push warning }) :=
      .step hm ⟨.refl _, rfl, rfl, rfl, by simp⟩
    exact .bind_of_ok rfl hpasses (hbind _ (hpasses.sound hm) rfl)

theorem keeps_declareGlobal (name : Identifier) (value : Value) (constant : Bool) :
    Keeps limit (Run.declareGlobal name value constant) := by
  intro m hm
  refine .andThen hm (.declare hm hm.linked.isLive_root name value constant) fun _ m hm => ?_
  exact .record hm ⟨.refl _, rfl, rfl, rfl, by simp⟩

theorem keeps_reassign (name : String) (value : Value) : Keeps limit (Run.reassign name value) :=
  .get fun m hm => by
    obtain ⟨ids, hc, hn⟩ := hm.linked.chain hm.linked.isLive_active
    exact .updateArena hm (hc.harmless_reassign hn name value) fun _ h => Arena.sameShape_reassign h

/-! ### Expressions -/

theorem evaluate_of_operation {call : Caller} {left right : Expr} {operator : Operator BinaryOp}
    {op : Operation} {span : Span} (hoperator : operator.op = .operation op) :
    evaluate call (.binary left operator right span) = (do
      let first ← evaluate call left
      let second ← evaluate call right
      Run.ofExcept (op.apply operator.text first.promote second.promote)) := by
  rw [evaluate, hoperator]

section

variable {call : Caller}

theorem keeps_callValue (hcall : ∀ f arguments, Keeps limit (call f arguments))
    (callee : Value) (arguments : List Value) :
    Keeps limit (callValue call callee arguments) := by
  unfold callValue
  split
  · exact hcall _ _
  · exact fun m hm => .callNative hm _ _
  · exact .raise nofun

theorem keeps_connect (op : Connective) {left right : Run Value} (hleft : Keeps limit left)
    (hright : Keeps limit right) : Keeps limit (connect op left right) := by
  rw [connect]
  apply Keeps.bind hleft
  intro first
  apply Keeps.bind (.ofExcept first.harmless_condition)
  intro holds
  split
  · exact .pure _
  · exact .pure _
  · exact .bind hright fun second =>
      .bind (.ofExcept second.harmless_condition) fun _ => .pure _

mutual

theorem keeps_evaluate (hcall : ∀ f arguments, Keeps limit (call f arguments)) :
    (expr : Expr) → Keeps limit (evaluate call expr)
  | .number n _ => by
    rw [evaluate]
    exact .pure _
  | .string s _ => by
    rw [evaluate]
    exact .pure _
  | .boolean b _ => by
    rw [evaluate]
    exact .pure _
  | .symbol name _ => by
    rw [evaluate]
    exact keeps_lookup name
  | .list elements _ => by
    rw [evaluate]
    exact .bind (keeps_evaluateAll hcall elements) fun _ => .pure _
  | .binary left operator right _ => by
    rw [evaluate]
    split
    · exact keeps_connect _ (keeps_evaluate hcall left) (keeps_evaluate hcall right)
    · exact .bind (keeps_evaluate hcall left) fun _ => .bind (keeps_evaluate hcall right) fun _ =>
        .ofExcept (Operation.harmless_apply _ _ _ _)
  | .unary operator operand _ => by
    rw [evaluate]
    exact .bind (keeps_evaluate hcall operand) fun _ => .ofExcept (UnaryOp.harmless_apply _ _ _)
  | .call callee arguments _ => by
    rw [evaluate]
    apply Keeps.bind (keeps_evaluate hcall callee)
    intro _
    exact .bind (keeps_evaluateAll hcall arguments) fun _ => keeps_callValue hcall _ _
  | .index target index _ => by
    rw [evaluate]
    apply Keeps.bind (keeps_evaluate hcall target)
    intro _
    apply Keeps.bind (keeps_evaluate hcall index)
    intro position
    exact .bind (.ofExcept position.harmless_asIndex) fun _ => .ofExcept (Value.harmless_get _ _)

theorem keeps_evaluateAll (hcall : ∀ f arguments, Keeps limit (call f arguments)) :
    (exprs : List Expr) → Keeps limit (evaluateAll call exprs)
  | [] => by
    rw [evaluateAll]
    exact .pure _
  | expr :: exprs => by
    rw [evaluateAll]
    apply Keeps.bind (keeps_evaluate hcall expr)
    intro _
    exact .bind (keeps_evaluateAll hcall exprs) fun _ => .pure _

end

theorem keeps_evaluateCondition (hcall : ∀ f arguments, Keeps limit (call f arguments))
    (expr : Expr) : Keeps limit (evaluateCondition call expr) :=
  .bind (keeps_evaluate hcall expr) fun value => .ofExcept value.harmless_condition

theorem keeps_resolve (ascription : TypeExpr) : Keeps limit (resolve ascription) := by
  induction ascription with
  | named name position =>
    apply Keeps.get
    intro m hm
    split
    · exact .pure trivial
    · exact .raise nofun
  | listOf element ih => exact .bind ih fun _ => .pure _

theorem keeps_resolve? (ascription : Option TypeExpr) : Keeps limit (resolve? ascription) := by
  unfold resolve?
  split
  · exact .pure _
  · exact .bind (keeps_resolve _) fun _ => .pure _

end

/-! ### Statements -/

theorem KeepsAt.attributed {ctx : Context} {stmt : Stmt} {x : Run α} {Q : α → Prop}
    (hx : KeepsAt limit Q x m) : KeepsAt limit Q (Run.attributed ctx stmt x) m := by
  rw [Run.attributed]
  split
  · exact hx
  · apply KeepsAt.mapError hx
    intro e _
    rw [Error.atStatement]
    split <;> rfl

theorem repeatWhile_succ (condition : Run Bool) (body : Run Flow) (fuel : Nat) :
    repeatWhile condition body (fuel + 1) = do
      if ← condition then
        match ← body with
        | .next => repeatWhile condition body fuel
        | .returned value => return .returned value
      else
        return .next := by
  funext m
  simp only [repeatWhile, Bind.bind, EStateM.bind]
  cases condition m with
  | error stop m' => rfl
  | ok holds m' =>
    cases holds with
    | false => rfl
    | true =>
      simp only [if_true, EStateM.bind]
      cases body m' with
      | error stop m'' => rfl
      | ok flow m'' => cases flow <;> rfl

theorem keeps_repeatWhile {condition : Run Bool} {body : Run Flow}
    (hcondition : Keeps limit condition) (hbody : Keeps limit body) (fuel : Nat) :
    Keeps limit (repeatWhile condition body fuel) := by
  induction fuel with
  | zero => exact fun _ _ => .outOfFuel
  | succ fuel ih =>
    rw [repeatWhile_succ]
    apply Keeps.bind hcondition
    intro holds
    split
    · apply Keeps.bind hbody
      intro flow
      split
      · exact ih
      · exact .pure _
    · exact .pure _

theorem keeps_runDeclaration {call : Caller}
    (hcall : ∀ f arguments, Keeps limit (call f arguments)) (name : Identifier)
    (constant global : Bool) (ascription : Option TypeExpr) (value : Expr) :
    Keeps limit (runDeclaration call name constant global ascription value) := by
  have hdeclare (value : Value) : Keeps limit (if global then Run.declareGlobal name value constant
      else do Run.declare (← get).active name value constant) := by
    split
    · exact keeps_declareGlobal name value constant
    · exact .get fun m hm => .declare hm hm.linked.isLive_active name value constant
  rw [runDeclaration]
  apply Keeps.bind (keeps_evaluate hcall value)
  intro value
  cases ascription with
  | none => exact hdeclare _
  | some ascription =>
    apply Keeps.bind (keeps_resolve ascription)
    intro declared
    exact .bind (.ofExcept (declared.harmless_check _)) fun _ => hdeclare _

theorem keeps_checkResult (f : UserFunction) (value : Value) :
    Keeps limit (Run.checkResult f value) := by
  apply Keeps.get
  intro m hm
  split
  · refine .andThen hm (.ofExcept (DeclaredType.harmless_check _ _) fun _ _ => trivial) ?_
    exact fun _ m hm => .record hm ⟨.refl _, rfl, rfl, rfl, by simp⟩
  · exact .record hm ⟨.refl _, rfl, rfl, rfl, by simp⟩

section

variable {ctx : Context} {call : Caller} {fuel : Nat} {f : UserFunction}

theorem runReturn_some (call : Caller) (f : UserFunction) (expr : Expr) :
    runReturn call f (some expr) = do
      let value ← evaluate call expr
      Run.checkResult f value.promote
      return .returned value.promote := by
  simp only [runReturn, Run.map_eq_bind, bind_assoc, pure_bind]

theorem keeps_runReturn (hcall : ∀ f arguments, Keeps limit (call f arguments))
    (value : Option Expr) : Keeps limit (runReturn call f value) := by
  have hrest (value : Value) : Keeps limit (do
      Run.checkResult f value
      return Flow.returned value) :=
    .bind (keeps_checkResult f value) fun _ => .pure _
  cases value with
  | none => exact hrest .void
  | some expr =>
    rw [runReturn_some]
    exact .bind (keeps_evaluate hcall expr) fun value => hrest value.promote

mutual

theorem keeps_runStmt (hcall : ∀ f arguments, Keeps limit (call f arguments)) :
    (stmt : Stmt) → Keeps limit (runStmt ctx call fuel f stmt)
  | .declaration .. => by
    rw [runStmt]
    exact .bind (keeps_runDeclaration hcall _ _ _ _ _) fun _ => .pure _
  | .reassignment _ value _ => by
    rw [runStmt]
    exact .bind (.bind (keeps_evaluate hcall value) fun _ => keeps_reassign _ _) fun _ => .pure _
  | .returnValue value _ => by
    rw [runStmt]
    exact keeps_runReturn hcall value
  | .expression value _ => by
    rw [runStmt]
    exact .bind (keeps_evaluate hcall value) fun _ => .pure _
  | .conditional branch => by
    rw [runStmt]
    exact keeps_runConditional hcall branch
  | .loop condition body _ => by
    rw [runStmt]
    have hcondition := keeps_evaluateCondition hcall condition
    exact keeps_repeatWhile hcondition (keeps_runBlock hcall body) fuel
  | .importNames .. => by
    rw [runStmt]
    exact .raise nofun
  | .function .. => by
    rw [runStmt]
    exact .raise nofun

theorem keeps_runConditional (hcall : ∀ f arguments, Keeps limit (call f arguments)) :
    (branch : Conditional) → Keeps limit (runConditional ctx call fuel f branch)
  | .mk condition body otherwise _ => by
    rw [runConditional]
    apply Keeps.bind (keeps_evaluateCondition hcall condition)
    intro holds
    split
    · exact keeps_runBlock hcall body
    · exact keeps_runOtherwise hcall otherwise

theorem keeps_runOtherwise (hcall : ∀ f arguments, Keeps limit (call f arguments)) :
    (otherwise : Otherwise) → Keeps limit (runOtherwise ctx call fuel f otherwise)
  | .nothing => by
    rw [runOtherwise]
    exact .pure _
  | .block body => by
    rw [runOtherwise]
    exact keeps_runBlock hcall body
  | .conditional branch => by
    rw [runOtherwise]
    exact keeps_runConditional hcall branch

theorem keeps_runBlock (hcall : ∀ f arguments, Keeps limit (call f arguments)) :
    (block : Block) → Keeps limit (runBlock ctx call fuel f block)
  | .mk statements _ => by
    rw [runBlock]
    exact .get fun m hm => .withScope hm (keeps_runStmts hcall statements)

theorem keeps_runStmts (hcall : ∀ f arguments, Keeps limit (call f arguments)) :
    (stmts : List Stmt) → Keeps limit (runStmts ctx call fuel f stmts)
  | [] => by
    rw [runStmts]
    exact .pure _
  | stmt :: stmts => by
    rw [runStmts]
    apply Keeps.bind (fun m hm => .attributed (keeps_runStmt hcall stmt m hm))
    intro flow
    split
    · exact keeps_runStmts hcall stmts
    · exact .pure _

end

end

/-! ### Calls -/

theorem keeps_bindParameters (parameters : List (Identifier × Option DeclaredType))
    (arguments : List Value) : Keeps limit (bindParameters parameters arguments) := by
  fun_induction bindParameters parameters arguments with
  | case1 name type parameters argument arguments ih =>
    refine .get fun m hm => .andThen hm ?_ fun _ => ih
    exact .updateArena hm (Arena.harmless_bind hm.linked.isLive_active name.name argument false)
      fun a h => Arena.sameShape_bind h
  | case2 => exact .pure _

theorem keeps_resultOf (f : UserFunction) (flow : Flow) : Keeps limit (resultOf f flow) := by
  unfold resultOf
  split
  · exact .pure _
  · split
    · exact .bind (.ofExcept (DeclaredType.harmless_check _ _)) fun _ => .pure _
    · exact .pure _

theorem keeps_callFunction (ctx : Context) (fuel : Nat) (f : UserFunction)
    (arguments : List Value) : Keeps ctx.maxDepth (callFunction ctx fuel f arguments) := by
  induction fuel generalizing f arguments with
  | zero => exact fun _ _ => .outOfFuel
  | succ fuel ih =>
    rw [callFunction]
    apply Keeps.bind (.ofExcept (f.harmless_checkArguments arguments))
    intro _
    apply Keeps.get
    intro m hm
    have hbody (hd : m.depth < ctx.maxDepth) : KeepsAt ctx.maxDepth (fun _ => True) (do
        let flow ← Run.deeper f <| Run.withScope m.active do
          bindParameters f.parameters arguments
          runStmts ctx (callFunction ctx fuel) fuel f f.body.statements
        resultOf f flow) m := by
      refine .andThen hm (.deeper hm hd fun m' hm' hactive => ?_) (keeps_resultOf f)
      rw [← hactive]
      exact .withScope hm' (Keeps.bind (keeps_bindParameters _ _) fun _ => keeps_runStmts ih _)
    split
    · exact .bind (Q := fun _ => False) hm (.raise nofun) fun _ _ _ h => h.elim
    · next hd => exact hbody (by omega)

end Script

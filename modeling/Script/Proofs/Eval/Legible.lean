import Script.Proofs.Eval.Located
import Script.Proofs.Eval.Provenance.Modules
import Script.Proofs.Legible
import Script.Proofs.Parse.Legible

/-!
# Errors of runs are legible

The operators of a function that was read are written on one line. A machine on which only such
functions are bound stays one, whatever is run on it and however that ends, and what a run fails
with has a message of one line, unless it shows a value that cannot be called.
-/

namespace Script

open Machine Lockstep

/-- All functions in the value have operators on one line. -/
abbrev Value.Legible (value : Value) : Prop := value.Over { f | f.body.Legible }

/-- All functions in what is bound have operators on one line. -/
structure Arena.Legible (a : Arena) : Prop where
  tidy : a.Tidy
  bound : a.Over { f | f.body.Legible }

/-- All functions that a host has put into the library have operators on one line. -/
def Library.Legible (library : Library) : Prop := ∀ f ∈ library.functions, f.body.Legible

/-- The run keeps what is bound legible. Its result is as `Q` says, and what it fails with has a
legible message. -/
structure Run.Legible (Q : α → Prop) (x : Run α) : Prop where
  of_ok {m n : Machine} {a : α} : m.arena.Legible → x m = .ok a n → n.arena.Legible ∧ Q a
  of_error {m n : Machine} {stop : Stop} : m.arena.Legible → x m = .error stop n →
    n.arena.Legible ∧ stop.Fails fun e => e.cause.Legible

/-- Nothing is said of the result. -/
abbrev Run.Tells (x : Run α) : Prop := x.Legible fun _ => True

namespace Arena.Legible

variable {a b : Arena}

theorem create (h : a.Legible) (parent : Option ScopeId) : (a.create parent).2.Legible :=
  ⟨h.tidy.create parent, h.bound.create h.tidy parent⟩

theorem release (h : a.Legible) (id : ScopeId) : (a.release id).Legible :=
  ⟨h.tidy.release id, h.bound.release id⟩

theorem bind (h : a.Legible) {id : ScopeId} {name : String} {value : Value} {constant : Bool}
    (hvalue : value.Legible) (hb : a.bind id name value constant = .ok b) : b.Legible :=
  ⟨(sameShape_bind hb).tidy h.tidy, h.bound.of_bound hvalue (binding?_bind hb)⟩

theorem reassign (h : a.Legible) {id : ScopeId} {name : String} {value : Value}
    (hvalue : value.Legible) (hb : a.reassign id name value = .ok b) : b.Legible := by
  obtain ⟨_, _, -, -, hbound⟩ := binding?_reassign hb
  exact ⟨(sameShape_reassign hb).tidy h.tidy, h.bound.of_bound hvalue hbound⟩

theorem withRoot : withRoot.Legible :=
  ⟨tidy_withRoot, over_withRoot⟩

end Arena.Legible

/-! ### Rules -/

namespace Run.Legible

variable {P : β → Prop} {Q : α → Prop}

theorem pure {a : α} (h : Q a) : (Pure.pure a : Run α).Legible Q where
  of_ok hm hx := by
    cases hx
    exact ⟨hm, h⟩
  of_error _ hx := nomatch hx

theorem bind {x : Run α} {f : α → Run β} (hx : x.Legible Q) (hf : ∀ a, Q a → (f a).Legible P) :
    (x >>= f).Legible P where
  of_ok {m n b} hm h := by
    cases hresult : x m with
    | error stop k => cases (bind_of_error hresult).symm.trans h
    | ok a k =>
      obtain ⟨hk, ha⟩ := hx.of_ok hm hresult
      exact (hf a ha).of_ok hk ((bind_of_ok hresult).symm.trans h)
  of_error {m n stop} hm h := by
    cases hresult : x m with
    | error stop k =>
      cases (bind_of_error hresult).symm.trans h
      exact hx.of_error hm hresult
    | ok a k =>
      obtain ⟨hk, ha⟩ := hx.of_ok hm hresult
      exact (hf a ha).of_error hk ((bind_of_ok hresult).symm.trans h)

theorem get {f : Machine → Run α} (h : ∀ m, m.arena.Legible → (f m).Legible Q) :
    (MonadState.get >>= f).Legible Q where
  of_ok {m _ _} hm hx := (h m hm).of_ok hm hx
  of_error {m _ _} hm hx := (h m hm).of_error hm hx

theorem outOfFuel : (throw .outOfFuel : Run α).Legible Q where
  of_ok _ hx := nomatch hx
  of_error hm hx := by
    cases hx
    exact ⟨hm, nofun⟩

theorem fail {e : Error} (h : e.cause.Legible) : (Run.fail e : Run α).Legible Q where
  of_ok _ hx := nomatch hx
  of_error hm hx := by
    cases hx
    refine ⟨hm, ?_⟩
    rintro _ ⟨⟩
    exact h

theorem raise {cause : Cause} (h : cause.Legible) : (Run.raise cause : Run α).Legible Q :=
  fail h

theorem ofExcept {result : Except Cause α} (h : RefusedAs Cause.Legible result)
    (hok : ∀ a, result = .ok a → Q a) : (Run.ofExcept result).Legible Q := by
  cases result with
  | ok a => exact pure (hok a rfl)
  | error cause => exact raise (h cause rfl)

/-- A computation that goes through leaves the machine as it is. -/
theorem bindExcept {result : Except Cause α} {f : α → Run β} (h : RefusedAs Cause.Legible result)
    (hf : ∀ a, (f a).Legible P) : (Run.ofExcept result >>= f).Legible P :=
  bind (ofExcept h fun _ _ => trivial : (Run.ofExcept result).Tells) fun a _ => hf a

theorem mapError {x : Run α} {f : Error → Error} (hx : x.Legible Q)
    (hf : ∀ e, e.cause.Legible → (f e).cause.Legible) : (Run.mapError f x).Legible Q where
  of_ok {m n a} hm h := by
    cases hresult : x m with
    | error stop k => cases (mapError_of_error hresult).symm.trans h
    | ok a k =>
      cases (mapError_of_ok hresult).symm.trans h
      exact hx.of_ok hm hresult
  of_error {m n stop} hm h := by
    cases hresult : x m with
    | ok a k => cases (mapError_of_ok hresult).symm.trans h
    | error stop k =>
      cases (mapError_of_error hresult).symm.trans h
      exact (hx.of_error hm hresult).imp_right fun hstop => hstop.mapError hf

/-- The statement that an error is attributed to does not show in its message. -/
theorem atStatement {x : Run α} (hx : x.Legible Q) (kind : StmtKind) (position : Position) :
    (Run.mapError (fun e => e.atStatement kind position) x).Legible Q :=
  hx.mapError fun e he => (e.cause_atStatement kind position).symm ▸ he

theorem attributed {x : Run α} (hx : x.Legible Q) (ctx : Context) (stmt : Stmt) :
    (Run.attributed ctx stmt x).Legible Q := by
  unfold Run.attributed
  split
  · exact hx
  · exact hx.atStatement _ _

theorem mapM {f : α → Run β} (hf : ∀ a, (f a).Tells) (as : List α) : (as.mapM f).Tells := by
  induction as with
  | nil => exact pure trivial
  | cons a as ih =>
    rw [List.mapM_cons]
    exact bind (hf a) fun _ _ => bind ih fun _ _ => pure trivial

/-! ### Steps -/

theorem update {f : State → State} (hf : ∀ s : State, s.arena.Legible → (f s).arena.Legible) :
    (Run.update f).Tells where
  of_ok {m _ _} hm hx := by
    cases hx
    exact ⟨hf m.toState hm, trivial⟩
  of_error _ hx := nomatch hx

theorem record {f : State → State} (event : Event)
    (hf : ∀ s : State, s.arena.Legible → (f s).arena.Legible) : (Run.record event f).Tells where
  of_ok {m _ _} hm hx := by
    cases hx
    exact ⟨hf m.toState hm, trivial⟩
  of_error _ hx := nomatch hx

theorem updateArena {f : Arena → Except Cause Arena} (h : ∀ a, RefusedAs Cause.Legible (f a))
    (hf : ∀ a b : Arena, a.Legible → f a = .ok b → b.Legible) : (Run.updateArena f).Tells :=
  get fun m hm => bind (ofExcept (h m.arena) fun b => hf m.arena b hm) fun _ hb =>
    update fun _ _ => hb

theorem lookup (name : String) : (Run.lookup name).Legible Value.Legible :=
  get fun m hm => ofExcept (m.arena.legible_lookup _ _) fun _ => hm.bound.lookup

theorem declare (scope : ScopeId) (name : Identifier) {value : Value} (hvalue : value.Legible)
    (constant : Bool) : (Run.declare scope name value constant).Tells where
  of_ok {m n _} hm hx := by
    obtain ⟨_, -, ⟨_, -, herror⟩ | ⟨a, hbind, hok⟩⟩ :=
      Run.declare_ends scope name value constant m
    · cases hx.symm.trans herror
    · cases hx.symm.trans hok
      exact ⟨Arena.Legible.bind hm hvalue hbind, trivial⟩
  of_error {m n _} hm hx := by
    obtain ⟨k, hk, ⟨cause, hcause, herror⟩ | ⟨_, -, hok⟩⟩ :=
      Run.declare_ends scope name value constant m
    · cases hx.symm.trans herror
      have harena : k.arena = m.arena := by
        obtain rfl | ⟨_, rfl⟩ := hk <;> rfl
      refine ⟨harena.symm ▸ hm, ?_⟩
      rintro _ ⟨⟩
      exact m.arena.legible_declare _ _ _ _ cause hcause
    · cases hx.symm.trans hok

theorem declareGlobal (name : Identifier) {value : Value} (hvalue : value.Legible)
    (constant : Bool) : (Run.declareGlobal name value constant).Tells :=
  bind (declare _ _ hvalue _) fun _ _ => record _ fun _ hs => hs

theorem reassign (name : String) {value : Value} (hvalue : value.Legible) :
    (Run.reassign name value).Tells :=
  get fun _ _ => updateArena (fun a => a.legible_reassign _ _ _) fun _ _ ha hb =>
    ha.reassign hvalue hb

theorem callNative (f : Native) {arguments : List Value}
    (harguments : ∀ argument ∈ arguments, argument.Legible) :
    (Run.callNative f arguments).Legible Value.Legible := by
  unfold Run.callNative
  split
  · exact outOfFuel
  · refine get fun m hm => ?_
    have hlegible := f.legible_call arguments m.world.output
    rcases hcall : f.call arguments m.world.output with ⟨result, output⟩
    rw [hcall] at hlegible
    refine bind (update fun _ hs => hs) fun _ _ => ofExcept hlegible ?_
    rintro value rfl
    exact Native.over_call harguments hcall

theorem checkResult (f : UserFunction) (value : Value) : (Run.checkResult f value).Tells := by
  refine get fun m _ => ?_
  split
  · exact bindExcept (DeclaredType.plain_check _ _).legible fun _ => record _ fun _ hs => hs
  · exact record _ fun _ hs => hs

theorem makeFunction (name : String) (parameters : List (Identifier × Option DeclaredType))
    (returns : Option DeclaredType) {body : Block} (hbody : body.Legible) (position : Position) :
    (Run.makeFunction name parameters returns body position).Legible fun f => f.body.Legible :=
  get fun _ _ => bind (record _ fun _ hs => hs) fun _ _ => pure hbody

/-! ### Brackets -/

theorem bracket {x y : Run α} {enter : Machine → Machine} {leave : Machine → Machine → Machine}
    (hy : ∀ m, y m = match x (enter m) with
      | .ok a n => .ok a (leave m n)
      | .error stop n => .error stop (leave m n))
    (henter : ∀ m : Machine, m.arena.Legible → (enter m).arena.Legible)
    (hleave : ∀ m n : Machine, n.arena.Legible → (leave m n).arena.Legible)
    (hx : x.Legible Q) : y.Legible Q where
  of_ok {m n a} hm h := by
    rw [hy] at h
    split at h <;> cases h
    next k hresult =>
    exact (hx.of_ok (henter m hm) hresult).imp_left (hleave m k)
  of_error {m n stop} hm h := by
    rw [hy] at h
    split at h <;> cases h
    next k hresult =>
    exact (hx.of_error (henter m hm) hresult).imp_left (hleave m k)

theorem withScope {inner : Run α} (parent : ScopeId) (hinner : inner.Legible Q) :
    (Run.withScope parent inner).Legible Q :=
  bracket (fun _ => rfl) (fun _ hm => hm.create _) (fun _ _ hn => hn.release _) hinner

theorem deeper {inner : Run α} (f : UserFunction) (hinner : inner.Legible Q) :
    (Run.deeper f inner).Legible Q :=
  bracket (fun _ => rfl) (fun _ hm => hm) (fun _ _ hn => hn) hinner

theorem whileLoading {inner : Run α} (location : Location) (hinner : inner.Legible Q) :
    (Run.whileLoading location inner).Legible Q :=
  bracket (fun _ => rfl) (fun _ hm => hm) (fun _ _ hn => hn) hinner

theorem onNewMachine {inner : Run Unit} (hinner : inner.Tells) :
    (Run.onNewMachine inner).Legible Arena.Legible where
  of_ok {m n a} hm h := by
    unfold Run.onNewMachine at h
    split at h <;> cases h
    next k hresult =>
    exact ⟨hm, (hinner.of_ok .withRoot hresult).1⟩
  of_error {m n stop} hm h := by
    unfold Run.onNewMachine at h
    split at h <;> cases h
    next k hresult =>
    exact ⟨hm, (hinner.of_error .withRoot hresult).2⟩

end Run.Legible

/-! ### Expressions -/

/-- Calls of legible functions keep what is bound legible. -/
def Caller.Legible (call : Caller) : Prop :=
  ∀ f arguments, f.body.Legible → (∀ argument ∈ arguments, argument.Legible) →
    (call f arguments).Legible Value.Legible

section

variable {call : Caller}

theorem legible_callValue (hcall : call.Legible) {callee : Value} (hcallee : callee.Legible)
    {arguments : List Value} (harguments : ∀ argument ∈ arguments, argument.Legible) :
    (callValue call callee arguments).Legible Value.Legible := by
  unfold callValue
  split
  · exact hcall _ _ ((Value.over_function _).1 hcallee) harguments
  · exact .callNative _ harguments
  · exact .raise (Cause.legible_notCallable _)

theorem legible_connect (op : Connective) {left right : Run Value}
    (hleft : left.Legible Value.Legible) (hright : right.Legible Value.Legible) :
    (connect op left right).Legible Value.Legible := by
  have hboolean (b : Bool) : (pure (.boolean b) : Run Value).Legible Value.Legible :=
    .pure (Value.over_boolean b)
  refine .bind hleft fun value _ => .bindExcept value.plain_condition.legible fun first => ?_
  split
  · exact hboolean _
  · exact hboolean _
  · exact .bind hright fun value _ => .bindExcept value.plain_condition.legible fun _ => hboolean _

mutual

/-- An expression with operators on one line keeps what is bound legible. -/
theorem legible_evaluate (hcall : call.Legible) : (expr : Expr) →
    expr.Legible → (evaluate call expr).Legible Value.Legible
  | .number n _, _ => by
    rw [evaluate]
    exact .pure (Value.over_integer n)
  | .string s _, _ => by
    rw [evaluate]
    exact .pure (Value.over_string s)
  | .boolean b _, _ => by
    rw [evaluate]
    exact .pure (Value.over_boolean b)
  | .symbol name _, _ => by
    rw [evaluate]
    exact .lookup name
  | .list elements _, h => by
    rw [evaluate]
    exact .bind (legible_evaluateAll hcall elements h) fun _ hvalues =>
      .pure ((Value.over_list _).2 hvalues)
  | .binary left operator right _, ⟨hleft, htext, hright⟩ => by
    have hleft := legible_evaluate hcall left hleft
    have hright := legible_evaluate hcall right hright
    rw [evaluate]
    split
    · exact legible_connect _ hleft hright
    · refine .bind hleft fun first hfirst => .bind hright fun second hsecond => ?_
      exact .ofExcept (Operation.legible_apply _ htext _ _) fun _ =>
        Operation.over_apply (Value.over_promote.2 hfirst) (Value.over_promote.2 hsecond)
  | .unary operator operand _, ⟨htext, hoperand⟩ => by
    rw [evaluate]
    exact .bind (legible_evaluate hcall operand hoperand) fun _ _ =>
      .ofExcept (UnaryOp.legible_apply _ htext _) fun _ => UnaryOp.over_apply
  | .call callee arguments _, ⟨hcallee, harguments⟩ => by
    rw [evaluate]
    refine .bind (legible_evaluate hcall callee hcallee) fun f hf => ?_
    exact .bind (legible_evaluateAll hcall arguments harguments) fun values hvalues =>
      legible_callValue hcall hf hvalues
  | .index target index _, ⟨htarget, hindex⟩ => by
    rw [evaluate]
    refine .bind (legible_evaluate hcall target htarget) fun value hvalue => ?_
    refine .bind (legible_evaluate hcall index hindex) fun i _ => ?_
    refine .bindExcept i.plain_asIndex.legible fun position => ?_
    exact .ofExcept (Value.plain_get _ _).legible fun _ => Value.over_get (Value.over_promote.2 hvalue)

theorem legible_evaluateAll (hcall : call.Legible) : (exprs : List Expr) →
    Expr.AllLegible exprs →
    (evaluateAll call exprs).Legible fun values => ∀ value ∈ values, value.Legible
  | [], _ => by
    rw [evaluateAll]
    exact .pure nofun
  | expr :: exprs, ⟨hexpr, hexprs⟩ => by
    rw [evaluateAll]
    refine .bind (legible_evaluate hcall expr hexpr) fun value hvalue => ?_
    refine .bind (legible_evaluateAll hcall exprs hexprs) fun values hvalues => ?_
    exact .pure (List.forall_mem_cons.2 ⟨Value.over_promote.2 hvalue, hvalues⟩)

end

theorem tells_evaluateCondition (hcall : call.Legible) {expr : Expr} (h : expr.Legible) :
    (evaluateCondition call expr).Tells :=
  .bind (legible_evaluate hcall expr h) fun value _ =>
    .ofExcept value.plain_condition.legible fun _ _ => trivial

end

theorem tells_resolve (ascription : TypeExpr) : (resolve ascription).Tells := by
  induction ascription with
  | named name position =>
    refine .get fun m _ => ?_
    split
    · exact .pure trivial
    · exact .raise (.inl unbroken_empty)
  | listOf element ih => exact .bind ih fun _ _ => .pure trivial

theorem tells_resolve? (ascription : Option TypeExpr) : (resolve? ascription).Tells := by
  cases ascription with
  | none => exact .pure trivial
  | some ascription => exact .bind (tells_resolve ascription) fun _ _ => .pure trivial

/-! ### Statements -/

/-- What is returned, if something is, is legible. -/
abbrev Flow.Legible (flow : Flow) : Prop := flow.Over { f | f.body.Legible }

theorem legible_repeatWhile {condition : Run Bool} {body : Run Flow} (hcondition : condition.Tells)
    (hbody : body.Legible Flow.Legible) (fuel : Nat) :
    (repeatWhile condition body fuel).Legible Flow.Legible := by
  induction fuel with
  | zero => exact .outOfFuel
  | succ fuel ih =>
    rw [repeatWhile_succ]
    refine .bind hcondition fun holds _ => ?_
    split
    · refine .bind hbody fun flow hflow => ?_
      cases flow with
      | next => exact ih
      | returned value => exact .pure hflow
    · exact .pure trivial

section

variable {call : Caller} (hcall : call.Legible)

include hcall

theorem tells_runDeclaration (name : Identifier) (constant global : Bool)
    (ascription : Option TypeExpr) {value : Expr} (h : value.Legible) :
    (runDeclaration call name constant global ascription value).Tells := by
  have hdeclare (value : Value) (hvalue : value.Legible) : Run.Tells
      (if global then Run.declareGlobal name value constant
        else do Run.declare (← get).active name value constant) := by
    split
    · exact .declareGlobal _ hvalue _
    · exact .get fun _ _ => .declare _ _ hvalue _
  rw [runDeclaration]
  refine .bind (legible_evaluate hcall value h) fun value hvalue => ?_
  have hdeclare := hdeclare value.promote (Value.over_promote.2 hvalue)
  cases ascription with
  | none => exact hdeclare
  | some ascription =>
    refine .bind (tells_resolve ascription) fun declared _ => ?_
    exact .bindExcept (declared.plain_check _).legible fun _ => hdeclare

theorem tells_runReassignment (name : Identifier) {value : Expr} (h : value.Legible) :
    (runReassignment call name value).Tells :=
  .bind (legible_evaluate hcall value h) fun _ hvalue => .reassign _ hvalue

theorem legible_runReturn (f : UserFunction) {value : Option Expr}
    (h : ∀ expr ∈ value, expr.Legible) : (runReturn call f value).Legible Flow.Legible := by
  have hrest (value : Value) (hvalue : value.Legible) : Run.Legible Flow.Legible (do
      Run.checkResult f value
      return Flow.returned value) :=
    .bind (.checkResult f value) fun _ _ => .pure hvalue
  cases value with
  | none => exact hrest .void Value.over_void
  | some expr =>
    rw [runReturn_some]
    exact .bind (legible_evaluate hcall expr (h expr rfl)) fun value hvalue =>
      hrest value.promote (Value.over_promote.2 hvalue)

end

section

variable {ctx : Context} {call : Caller} {fuel : Nat} {f : UserFunction}

theorem legible_next {x : Run Unit} (hx : x.Tells) :
    Run.Legible Flow.Legible (do x; return .next) :=
  .bind hx fun _ _ => .pure trivial

mutual

theorem legible_runStmt (hcall : call.Legible) : (stmt : Stmt) → stmt.Legible →
    (runStmt ctx call fuel f stmt).Legible Flow.Legible
  | .declaration .., h => by
    rw [runStmt]
    exact legible_next (tells_runDeclaration hcall _ _ _ _ h)
  | .reassignment .., h => by
    rw [runStmt]
    exact legible_next (tells_runReassignment hcall _ h)
  | .returnValue none _, _ => by
    rw [runStmt]
    exact legible_runReturn hcall f nofun
  | .returnValue (some value) _, h => by
    rw [runStmt]
    refine legible_runReturn hcall f ?_
    rintro _ ⟨⟩
    exact h
  | .expression value _, h => by
    rw [runStmt]
    exact .bind (legible_evaluate hcall value h) fun _ _ => .pure trivial
  | .conditional branch, h => by
    rw [runStmt]
    exact legible_runConditional hcall branch h
  | .loop condition body _, ⟨hcondition, hbody⟩ => by
    rw [runStmt]
    exact legible_repeatWhile (tells_evaluateCondition hcall hcondition)
      (legible_runBlock hcall body hbody) fuel
  | .importNames .., _ => by
    rw [runStmt]
    exact .raise (.inl unbroken_empty)
  | .function .., _ => by
    rw [runStmt]
    exact .raise (.inl unbroken_empty)

theorem legible_runConditional (hcall : call.Legible) : (branch : Conditional) → branch.Legible →
    (runConditional ctx call fuel f branch).Legible Flow.Legible
  | .mk condition body otherwise _, ⟨hcondition, hbody, hotherwise⟩ => by
    rw [runConditional]
    refine .bind (tells_evaluateCondition hcall hcondition) fun holds _ => ?_
    split
    · exact legible_runBlock hcall body hbody
    · exact legible_runOtherwise hcall otherwise hotherwise

theorem legible_runOtherwise (hcall : call.Legible) : (otherwise : Otherwise) →
    otherwise.Legible → (runOtherwise ctx call fuel f otherwise).Legible Flow.Legible
  | .nothing, _ => by
    rw [runOtherwise]
    exact .pure trivial
  | .block body, h => by
    rw [runOtherwise]
    exact legible_runBlock hcall body h
  | .conditional branch, h => by
    rw [runOtherwise]
    exact legible_runConditional hcall branch h

theorem legible_runBlock (hcall : call.Legible) : (block : Block) → block.Legible →
    (runBlock ctx call fuel f block).Legible Flow.Legible
  | .mk statements _, h => by
    rw [runBlock]
    exact .get fun _ _ => .withScope _ (legible_runStmts hcall statements h)

theorem legible_runStmts (hcall : call.Legible) : (stmts : List Stmt) → Stmt.AllLegible stmts →
    (runStmts ctx call fuel f stmts).Legible Flow.Legible
  | [], _ => by
    rw [runStmts]
    exact .pure trivial
  | stmt :: stmts, ⟨hstmt, hstmts⟩ => by
    rw [runStmts]
    refine .bind (.attributed (legible_runStmt hcall stmt hstmt) _ _) fun flow hflow => ?_
    cases flow with
    | next => exact legible_runStmts hcall stmts hstmts
    | returned value => exact .pure hflow

end

end

/-! ### Calls -/

theorem tells_bindParameters (parameters : List (Identifier × Option DeclaredType))
    {arguments : List Value} (h : ∀ argument ∈ arguments, argument.Legible) :
    (bindParameters parameters arguments).Tells := by
  fun_induction bindParameters parameters arguments with
  | case1 name type parameters argument arguments ih =>
    obtain ⟨hargument, hrest⟩ := List.forall_mem_cons.1 h
    refine .get fun m _ => .bind (.updateArena ?_ ?_) fun _ _ => ih hrest
    · exact fun a => a.legible_bind _ _ _ _
    · exact fun _ _ ha hb => ha.bind hargument hb
  | case2 => exact .pure trivial

theorem legible_resultOf (f : UserFunction) {flow : Flow} (h : flow.Legible) :
    (resultOf f flow).Legible Value.Legible := by
  unfold resultOf
  split
  · exact .pure h
  · split
    · exact .bindExcept (DeclaredType.plain_check _ _).legible fun _ => .pure Value.over_void
    · exact .pure Value.over_void

theorem Block.legible_statements {body : Block} (h : body.Legible) :
    Stmt.AllLegible body.statements := by
  cases body
  exact h

theorem legible_callFunction (ctx : Context) (fuel : Nat) : (callFunction ctx fuel).Legible := by
  induction fuel with
  | zero => exact fun _ _ _ _ => .outOfFuel
  | succ fuel ih =>
    intro f arguments hf harguments
    rw [callFunction]
    refine .bindExcept (f.plain_checkArguments _).legible fun _ => .get fun m _ => ?_
    split
    · exact .bind (Q := fun _ => False) (.raise (.inl unbroken_empty)) fun _ h => h.elim
    · refine .bind (Q := Flow.Legible) (.deeper f (.withScope _ ?_)) fun flow hflow =>
        legible_resultOf f hflow
      exact .bind (tells_bindParameters _ harguments) fun _ _ =>
        legible_runStmts ih _ (Block.legible_statements hf)

end Script

import Script.Proofs.Eval.Inferred

/-!
# What calls give

A call that succeeds has either returned a value, which was entered into the history as a result of
its function, or its body came to its end, and then it would have done so on behalf of any function.
With what is inferred in a run this says which results a function can have.
-/

namespace Script

variable {m n k : Machine} {f : UserFunction} {value : Value}

/-- The latest thing done is that the function returned the value, and it was of the right type. -/
structure Machine.Returned (n : Machine) (f : UserFunction) (value : Value) : Prop where
  latest : n.now.events.head? = some (.returned f value)
  accepts : n.world.Accepts f value

theorem Machine.Returned.congr (h : m.Returned f value) (hevents : n.now.events = m.now.events)
    (hinferred : n.world.inferred = m.world.inferred) : n.Returned f value :=
  ⟨hevents ▸ h.latest, h.accepts.mono fun id _ ht => (World.inferred?_congr hinferred id).trans ht⟩

namespace Run

theorem bind_eq_ok {x : Run α} {g : α → Run β} {b : β} :
    (x >>= g) m = .ok b k ↔ ∃ a n, x m = .ok a n ∧ g a n = .ok b k := by
  change EStateM.bind x g m = .ok b k ↔ _
  unfold EStateM.bind
  cases x m <;> simp

theorem pure_eq_ok {a b : α} : (pure a : Run α) m = .ok b n ↔ a = b ∧ m = n := by
  change EStateM.Result.ok a m = .ok b n ↔ _
  simp

theorem ofExcept_eq_ok {result : Except Cause α} {a : α} :
    Run.ofExcept result m = .ok a n ↔ result = .ok a ∧ n = m := by
  cases result with
  | ok b =>
    change EStateM.Result.ok b m = .ok a n ↔ _
    simp [eq_comm]
  | error cause =>
    change EStateM.Result.error _ _ = .ok a n ↔ _
    simp

theorem mapError_eq_ok {g : Error → Error} {x : Run α} {a : α} :
    Run.mapError g x m = .ok a n ↔ x m = .ok a n := by
  unfold Run.mapError
  rcases x m with _ | ⟨_ | _⟩ <;> simp

theorem attributed_eq_ok {ctx : Context} {stmt : Stmt} {x : Run α} {a : α} :
    Run.attributed ctx stmt x m = .ok a n ↔ x m = .ok a n := by
  unfold Run.attributed
  split
  · rfl
  · exact mapError_eq_ok

theorem withScope_eq_ok {inner : Run α} {a : α} :
    Run.withScope m.active inner m = .ok a k ↔
      ∃ n, inner m.enterScope = .ok a n ∧ k = m.leaveScope n := by
  unfold Run.withScope Machine.enterScope
  dsimp only
  cases inner _ <;> simp [eq_comm, Machine.leaveScope]

theorem deeper_eq_ok {inner : Run α} {a : α} :
    Run.deeper f inner m = .ok a k ↔ ∃ n, inner (m.enterCall f) = .ok a n ∧ k = n.leaveCall := by
  unfold Run.deeper Machine.enterCall
  dsimp only
  cases inner _ <;> simp [eq_comm, Machine.leaveCall]

end Run

/-! ### Returning -/

/-- The value of a `return`. -/
def returnValue (call : Caller) : Option Expr → Run Value
  | some expr => Value.promote <$> evaluate call expr
  | none => pure .void

theorem runReturn_eq (call : Caller) (f : UserFunction) (expr : Option Expr) :
    runReturn call f expr = do
      let value ← returnValue call expr
      Run.checkResult f value
      return .returned value := by
  cases expr <;> rfl

theorem checkResult_first (h : n.world.resultType? f = none) :
    Run.checkResult f value n = .ok () (n.stepWith id
      (fun s => { s with world := s.world.infer f.id value.typeOf }) [.returned f value]) := by
  rw [Run.checkResult, Run.get_bind, Machine.resultType?, h]
  rfl

theorem checkResult_accepted (h : n.world.Accepts f value) :
    Run.checkResult f value n = .ok () (n.stepWith id id [.returned f value]) := by
  obtain ⟨declared, htype, haccepts⟩ := h
  have hcheck : declared.check value = .ok () := if_pos haccepts
  rw [Run.checkResult, Run.get_bind, Machine.resultType?, htype]
  dsimp only
  rw [hcheck]
  rfl

theorem checkResult_refused {declared : DeclaredType}
    (htype : n.world.resultType? f = some declared) (h : ¬declared.accepts value) :
    let cause := Cause.typeMatch declared.text (declared.offence value)
    Run.checkResult f value n = .error (.failed (.ofCause cause)) (n.raise cause) := by
  have hcheck : declared.check value = .error (.typeMatch declared.text (declared.offence value)) :=
    if_neg h
  rw [Run.checkResult, Run.get_bind, Machine.resultType?, htype]
  dsimp only
  rw [hcheck]
  rfl

theorem returned_of_checkResult (h : Run.checkResult f value m = .ok () n) :
    n.Returned f value := by
  have hdone {f' : State → State} (hn : .ok () (m.stepWith id f' [.returned f value]) =
      (EStateM.Result.ok () n : EStateM.Result Stop Machine Unit))
      (heffect : (Event.returned f value).Effect m.world (f' m.toState).world) :
      n.Returned f value := by
    injection hn with _ hn
    subst hn
    exact ⟨by simp, heffect.accepts⟩
  cases htype : m.world.resultType? f with
  | none =>
    rw [checkResult_first htype] at h
    exact hdone h (.inr ⟨htype, rfl⟩)
  | some declared =>
    by_cases haccepts : declared.accepts value
    · have haccepts : m.world.Accepts f value := ⟨declared, htype, haccepts⟩
      rw [checkResult_accepted haccepts] at h
      exact hdone h (.inl ⟨haccepts, rfl⟩)
    · rw [checkResult_refused htype haccepts] at h
      cases h

section

variable {call : Caller} {expr : Option Expr}

theorem runReturn_ok (hvalue : returnValue call expr m = .ok value n)
    (hcheck : Run.checkResult f value n = .ok () k) :
    runReturn call f expr m = .ok (.returned value) k := by
  rw [runReturn_eq, Run.bind_of_ok hvalue, Run.bind_of_ok hcheck]
  rfl

theorem runReturn_error {stop : Stop} (hvalue : returnValue call expr m = .ok value n)
    (hcheck : Run.checkResult f value n = .error stop k) :
    runReturn call f expr m = .error stop k := by
  rw [runReturn_eq, Run.bind_of_ok hvalue, Run.bind_of_error hcheck]

/-- The first `return` fixes the type. -/
theorem runReturn_first (hvalue : returnValue call expr m = .ok value n) (hf : f.returns = none)
    (h : n.world.inferred? f.id = none) : ∃ k, runReturn call f expr m = .ok (.returned value) k ∧
      k.world.inferred? f.id = some value.typeOf := by
  refine ⟨_, runReturn_ok hvalue (checkResult_first (World.resultType?_eq_none.2 ⟨hf, h⟩)), ?_⟩
  exact (World.inferred?_infer n.world f.id value.typeOf f.id).trans (if_pos rfl)

theorem runReturn_again (hvalue : returnValue call expr m = .ok value n) (hf : f.returns = none)
    (h : n.world.inferred? f.id = some value.typeOf) :
    ∃ k, runReturn call f expr m = .ok (.returned value) k ∧ k.toState = n.toState :=
  ⟨_, runReturn_ok hvalue (checkResult_accepted (.of_inferred? hf h)), rfl⟩

/-- A `return` of another type fails and changes nothing. -/
theorem runReturn_other {t : ValueType} (hvalue : returnValue call expr m = .ok value n)
    (hf : f.returns = none) (h : n.world.inferred? f.id = some t) (hne : t ≠ value.typeOf) :
    ∃ e k, runReturn call f expr m = .error (.failed e) k ∧ e.kind = .typeMismatch ∧
      k.now = n.now := by
  have htype : n.world.resultType? f = some (.exactly t) := by
    rw [World.resultType?_of_inferred hf, h, Option.map_some]
  have haccepts : ¬(DeclaredType.exactly t).accepts value := fun heq => hne (eq_of_beq heq).symm
  exact ⟨_, _, runReturn_error hvalue (checkResult_refused htype haccepts), rfl,
    Machine.now_raise ..⟩

end

/-! ### Bodies -/

/-- The runs of a part of a body, each on behalf of a function. The one on behalf of `f` returns
only what `f` may return, and if it goes on, so do the others in the same way. -/
structure ActsFor (f : UserFunction) (x : UserFunction → Run Flow) : Prop where
  returned : ∀ {m n value}, x f m = .ok (.returned value) n → n.Returned f value
  next : ∀ {m n}, x f m = .ok .next n → ∀ g, x g m = .ok .next n

namespace ActsFor

variable {x y : UserFunction → Run Flow}

theorem next_of_bind {x : Run α} {flow : Flow} (h : (x >>= fun _ => pure .next) m = .ok flow n) :
    flow = .next := by
  obtain ⟨_, _, -, hnext⟩ := Run.bind_eq_ok.1 h
  cases hnext
  rfl

theorem goesOn (x : Run α) : ActsFor f fun _ => x >>= fun _ => pure .next where
  returned h := nomatch next_of_bind h
  next h _ := h

theorem nothing : ActsFor f fun _ => pure .next where
  returned h := nomatch h
  next h _ := h

theorem raise (cause : Cause) : ActsFor f fun _ => Run.raise cause where
  returned h := nomatch h
  next h _ := h

theorem outOfFuel : ActsFor f fun _ => throw .outOfFuel where
  returned h := nomatch h
  next h _ := h

theorem bind (x : Run α) {y : α → UserFunction → Run Flow} (hy : ∀ a, ActsFor f (y a)) :
    ActsFor f fun g => x >>= fun a => y a g where
  returned h := by
    obtain ⟨a, _, -, hy'⟩ := Run.bind_eq_ok.1 h
    exact (hy a).returned hy'
  next h g := by
    obtain ⟨a, _, hx, hy'⟩ := Run.bind_eq_ok.1 h
    exact Run.bind_eq_ok.2 ⟨a, _, hx, (hy a).next hy' g⟩

/-- One part of a body and then another, if the first goes on. -/
theorem andThen (hx : ActsFor f x) (hy : ActsFor f y) : ActsFor f fun g => do
    match ← x g with
    | .next => y g
    | .returned value => return .returned value where
  returned h := by
    obtain ⟨flow, _, hx', hrest⟩ := Run.bind_eq_ok.1 h
    cases flow with
    | next => exact hy.returned hrest
    | returned value =>
      cases hrest
      exact hx.returned hx'
  next h g := by
    obtain ⟨flow, _, hx', hrest⟩ := Run.bind_eq_ok.1 h
    cases flow with
    | next => exact Run.bind_eq_ok.2 ⟨.next, _, hx.next hx' g, hy.next hrest g⟩
    | returned value => cases hrest

/-- A bracket that leaves the history and what is inferred as they are. -/
theorem bracket (enter : Machine → Machine) (leave : Machine → Machine → Machine)
    (hy : ∀ {g m flow k}, y g m = .ok flow k ↔ ∃ n, x g (enter m) = .ok flow n ∧ k = leave m n)
    (hevents : ∀ m n, (leave m n).now.events = n.now.events)
    (hinferred : ∀ m n, (leave m n).world.inferred = n.world.inferred) (hx : ActsFor f x) :
    ActsFor f y where
  returned h := by
    obtain ⟨n, hx', rfl⟩ := hy.1 h
    exact (hx.returned hx').congr (hevents _ n) (hinferred _ n)
  next h g := by
    obtain ⟨n, hx', rfl⟩ := hy.1 h
    exact hy.2 ⟨n, hx.next hx' g, rfl⟩

theorem withScope (hx : ActsFor f x) :
    ActsFor f fun g => (do Run.withScope (← get).active (x g)) :=
  bracket Machine.enterScope Machine.leaveScope Run.withScope_eq_ok
    (fun _ _ => by simp [Machine.leaveScope]) (fun _ _ => rfl) hx

theorem deeper (hx : ActsFor f x) (caller : UserFunction) :
    ActsFor f fun g => Run.deeper caller (x g) :=
  bracket (·.enterCall caller) (fun _ n => n.leaveCall) Run.deeper_eq_ok
    (fun _ _ => by simp [Machine.leaveCall]) (fun _ _ => rfl) hx

theorem attributed (hx : ActsFor f x) (ctx : Context) (stmt : Stmt) :
    ActsFor f fun g => Run.attributed ctx stmt (x g) where
  returned h := hx.returned (Run.attributed_eq_ok.1 h)
  next h g := Run.attributed_eq_ok.2 (hx.next (Run.attributed_eq_ok.1 h) g)

theorem repeatWhile (condition : Run Bool) {body : UserFunction → Run Flow} (hbody : ActsFor f body)
    (fuel : Nat) : ActsFor f fun g => Script.repeatWhile condition (body g) fuel := by
  induction fuel with
  | zero => exact outOfFuel
  | succ fuel ih =>
    simp only [repeatWhile_succ]
    refine bind condition fun holds => ?_
    cases holds with
    | true => exact andThen hbody ih
    | false => exact nothing

theorem runReturn (call : Caller) (expr : Option Expr) :
    ActsFor f fun g => Script.runReturn call g expr where
  returned h := by
    rw [runReturn_eq] at h
    obtain ⟨value, _, -, h⟩ := Run.bind_eq_ok.1 h
    obtain ⟨_, _, hcheck, h⟩ := Run.bind_eq_ok.1 h
    cases h
    exact returned_of_checkResult hcheck
  next h := by
    rw [runReturn_eq] at h
    obtain ⟨value, _, -, h⟩ := Run.bind_eq_ok.1 h
    obtain ⟨_, _, -, h⟩ := Run.bind_eq_ok.1 h
    cases h

section

variable (ctx : Context) (call : Caller) (fuel : Nat)

mutual

theorem runStmt : (stmt : Stmt) → ActsFor f fun g => Script.runStmt ctx call fuel g stmt
  | .declaration name constant global ascription value _ => by
    simp only [Script.runStmt]
    exact goesOn _
  | .reassignment name value _ => by
    simp only [Script.runStmt]
    exact goesOn _
  | .returnValue value _ => by
    simp only [Script.runStmt]
    exact runReturn call value
  | .expression value _ => by
    simp only [Script.runStmt]
    exact goesOn _
  | .conditional branch => by
    simp only [Script.runStmt]
    exact runConditional branch
  | .loop condition body _ => by
    simp only [Script.runStmt]
    exact repeatWhile _ (runBlock body) fuel
  | .importNames .. => by
    simp only [Script.runStmt]
    exact raise _
  | .function .. => by
    simp only [Script.runStmt]
    exact raise _

theorem runConditional : (branch : Conditional) →
    ActsFor f fun g => Script.runConditional ctx call fuel g branch
  | .mk condition body otherwise _ => by
    simp only [Script.runConditional]
    refine bind _ fun holds => ?_
    cases holds with
    | true => exact runBlock body
    | false => exact runOtherwise otherwise

theorem runOtherwise : (otherwise : Otherwise) →
    ActsFor f fun g => Script.runOtherwise ctx call fuel g otherwise
  | .nothing => by
    simp only [Script.runOtherwise]
    exact nothing
  | .block body => by
    simp only [Script.runOtherwise]
    exact runBlock body
  | .conditional branch => by
    simp only [Script.runOtherwise]
    exact runConditional branch

theorem runBlock : (block : Block) → ActsFor f fun g => Script.runBlock ctx call fuel g block
  | .mk statements _ => by
    simp only [Script.runBlock]
    exact withScope (runStmts statements)

theorem runStmts : (stmts : List Stmt) → ActsFor f fun g => Script.runStmts ctx call fuel g stmts
  | [] => by
    simp only [Script.runStmts]
    exact nothing
  | stmt :: stmts => by
    simp only [Script.runStmts]
    exact andThen ((runStmt stmt).attributed ctx stmt) (runStmts stmts)

end

end

end ActsFor

/-! ### Calls -/

/-- Runs the body of `f` in a call of it, with its `return`s on behalf of `g`. -/
def runBodyFor (ctx : Context) (fuel : Nat) (f : UserFunction) (arguments : List Value)
    (g : UserFunction) : Run Flow :=
  Run.deeper f do
    Run.withScope (← get).active do
      bindParameters f.parameters arguments
      runStmts ctx (callFunction ctx fuel) fuel g f.body.statements

theorem actsFor_body (ctx : Context) (fuel : Nat) (f : UserFunction) (arguments : List Value) :
    ActsFor f (runBodyFor ctx fuel f arguments) :=
  .deeper (.withScope (.bind _ fun _ => .runStmts ctx _ fuel f.body.statements)) f

/-- A body that ends without returning counts as `Void`. -/
theorem resultOf_eq_ok {flow : Flow} : resultOf f flow m = .ok value n ↔ m = n ∧
    (flow = .returned value ∨ flow = .next ∧ value = .void ∧
      ∀ declared, f.returns = some declared → declared.accepts .void) := by
  cases flow with
  | returned other =>
    refine Run.pure_eq_ok.trans ⟨fun h => ⟨h.2, .inl (congrArg _ h.1)⟩, fun h => ⟨?_, h.1⟩⟩
    obtain ⟨-, heq | ⟨hnext, -⟩⟩ := h
    · exact Flow.returned.inj heq
    · cases hnext
  | next =>
    unfold resultOf
    cases hf : f.returns with
    | none =>
      refine Run.pure_eq_ok.trans ⟨fun h => ⟨h.2, .inr ⟨rfl, h.1.symm, nofun⟩⟩, fun h => ⟨?_, h.1⟩⟩
      obtain ⟨-, heq | ⟨-, hvoid, -⟩⟩ := h
      · cases heq
      · exact hvoid.symm
    | some declared =>
      dsimp only
      constructor
      · intro h
        obtain ⟨_, _, hrun, hvoid⟩ := Run.bind_eq_ok.1 h
        obtain ⟨hcheck, rfl⟩ := Run.ofExcept_eq_ok.1 hrun
        obtain ⟨rfl, rfl⟩ := Run.pure_eq_ok.1 hvoid
        refine ⟨rfl, .inr ⟨rfl, rfl, fun other hother => ?_⟩⟩
        cases hother
        exact DeclaredType.accepts_of_check hcheck
      · rintro ⟨rfl, heq | ⟨-, rfl, haccepts⟩⟩
        · cases heq
        · have hcheck : declared.check .void = .ok () := if_pos (haccepts declared rfl)
          rw [hcheck]
          rfl

section

variable {ctx : Context} {fuel : Nat} {arguments : List Value}

theorem checked_of_callFunction (h : callFunction ctx (fuel + 1) f arguments m = .ok value n) :
    f.checkArguments arguments = .ok () ∧ m.depth < ctx.maxDepth := by
  rw [callFunction] at h
  obtain ⟨_, _, hrun, hrest⟩ := Run.bind_eq_ok.1 h
  obtain ⟨hcheck, rfl⟩ := Run.ofExcept_eq_ok.1 hrun
  obtain ⟨_, _, hget, hrest⟩ := Run.bind_eq_ok.1 hrest
  cases hget
  split at hrest
  · obtain ⟨_, _, hraise, -⟩ := Run.bind_eq_ok.1 hrest
    cases hraise
  · next hdepth => exact ⟨hcheck, Nat.lt_of_not_le hdepth⟩

theorem callFunction_eq (hcheck : f.checkArguments arguments = .ok ())
    (hdepth : m.depth < ctx.maxDepth) : callFunction ctx (fuel + 1) f arguments m =
      (runBodyFor ctx fuel f arguments f >>= resultOf f) m := by
  rw [callFunction, hcheck]
  change (if m.depth ≥ ctx.maxDepth then _ else _ : Run Value) m = _
  rw [if_neg (Nat.not_le_of_lt hdepth)]
  rfl

theorem callFunction_eq_ok : callFunction ctx (fuel + 1) f arguments m = .ok value n ↔
    f.checkArguments arguments = .ok () ∧ m.depth < ctx.maxDepth ∧
      ∃ flow, runBodyFor ctx fuel f arguments f m = .ok flow n ∧
        (flow = .returned value ∨ flow = .next ∧ value = .void ∧
          ∀ declared, f.returns = some declared → declared.accepts .void) := by
  constructor
  · intro h
    obtain ⟨hcheck, hdepth⟩ := checked_of_callFunction h
    rw [callFunction_eq hcheck hdepth] at h
    obtain ⟨flow, _, hbody, h⟩ := Run.bind_eq_ok.1 h
    obtain ⟨rfl, hflow⟩ := resultOf_eq_ok.1 h
    exact ⟨hcheck, hdepth, flow, hbody, hflow⟩
  · rintro ⟨hcheck, hdepth, flow, hbody, hflow⟩
    rw [callFunction_eq hcheck hdepth]
    exact Run.bind_eq_ok.2 ⟨flow, n, hbody, resultOf_eq_ok.2 ⟨rfl, hflow⟩⟩

end

/-- A call that succeeds gives a value of the declared type. It has returned it, or has come to the
end of the body, and would have done so on behalf of any function. -/
theorem callFunction_gives {ctx : Context} {fuel : Nat} {arguments : List Value}
    (h : callFunction ctx fuel f arguments m = .ok value n) :
    (∀ declared, f.returns = some declared → declared.accepts value) ∧
      (n.Returned f value ∨ value = .void ∧ ∃ inner, fuel = inner + 1 ∧
        ∀ g, runBodyFor ctx inner f arguments g m = .ok .next n) := by
  cases fuel with
  | zero => cases h
  | succ inner =>
    obtain ⟨-, -, flow, hbody, rfl | ⟨rfl, rfl, haccepts⟩⟩ := callFunction_eq_ok.1 h
    · have hreturned := (actsFor_body ctx inner f arguments).returned hbody
      exact ⟨fun _ => hreturned.accepts.accepts_declared, .inl hreturned⟩
    · exact ⟨haccepts, .inr ⟨rfl, inner, rfl, (actsFor_body ctx inner f arguments).next hbody⟩⟩

/-! ### Runs -/

theorem Idle.consistent {ctx : Context} {m : Machine} (h : Idle ctx m) :
    ∀ x ∈ m.moments, x.Consistent ∧ x.Numbered := by
  obtain ⟨first, hevents, hlogged⟩ := h.logged
  refine hlogged.induction ⟨?_, ?_, ?_⟩ fun hnext hx => ⟨hnext.consistent hx.1, hnext.numbered hx.2⟩
  all_goals simp [Moment.Consistent, hevents]

theorem Idle.infers {ctx : Context} {m : Machine} (h : Idle ctx m) :
    m.moments.IsChain fun later earlier =>
      ∀ id, later.inferred? id = earlier.inferred? id ∨ earlier.Infers later id := by
  obtain ⟨first, -, hlogged⟩ := h.logged
  exact hlogged.steps.imp_of_mem_imp fun _ earlier _ hmem hnext =>
    hnext.infers (h.consistent earlier hmem).1

/-- At every moment of a run the values that calls have returned are of the types that their
functions declare, or else of the types that are inferred for them. A type is inferred by the first
`return` of all calls of a function, once its value is known, and stays. So a call that succeeds has
returned such a value, or has come to the end of its body: that gives `Void`, which a declared type
must allow, and happens in the same way on behalf of any function. A `return` of a value of another
type than the inferred one fails, and leaves everything as it was. -/
theorem Idle.returns_enforced {ctx : Context} {m : Machine} (h : Idle ctx m) :
    (∀ x ∈ m.moments, x.Numbered ∧ ∀ f value, .returned f value ∈ x.events →
      (∀ declared, f.returns = some declared → declared.accepts value) ∧
      (f.returns = none → x.inferred? f.id = some value.typeOf)) ∧
    (m.moments.IsChain fun later earlier =>
      ∀ id, later.inferred? id = earlier.inferred? id ∨ earlier.Infers later id) ∧
    (m.moments.Pairwise fun later earlier => earlier.Kept later) ∧
    (∀ ctx fuel f arguments k value n, callFunction ctx fuel f arguments k = .ok value n →
      (∀ declared, f.returns = some declared → declared.accepts value) ∧
      (n.Returned f value ∨ value = .void ∧ ∃ inner, fuel = inner + 1 ∧
        ∀ g, runBodyFor ctx inner f arguments g k = .ok .next n)) ∧
    (∀ ctx fuel f arguments k n, f.checkArguments arguments = .ok () → k.depth < ctx.maxDepth →
      f.returns = none → runBodyFor ctx fuel f arguments f k = .ok .next n →
      callFunction ctx (fuel + 1) f arguments k = .ok .void n) ∧
    ∀ call f expr k value n, f.returns = none → returnValue call expr k = .ok value n →
      (n.world.inferred? f.id = none → ∃ n', runReturn call f expr k = .ok (.returned value) n' ∧
        n'.world.inferred? f.id = some value.typeOf) ∧
      (n.world.inferred? f.id = some value.typeOf → ∃ n',
        runReturn call f expr k = .ok (.returned value) n' ∧ n'.toState = n.toState) ∧
      ∀ t, n.world.inferred? f.id = some t → t ≠ value.typeOf → ∃ e n',
        runReturn call f expr k = .error (.failed e) n' ∧ e.kind = .typeMismatch ∧
        n'.now = n.now := by
  refine ⟨fun x hmem => ⟨(h.consistent x hmem).2, fun f value hreturned => ?_⟩, h.infers, ?_,
    fun _ fuel f arguments k value n hcall => callFunction_gives hcall,
    fun _ fuel f arguments k n hcheck hdepth hf hbody => ?_,
    fun call f expr k value n hf hvalue => ⟨fun hnone => ?_, fun hsame => ?_, fun t ht hne => ?_⟩⟩
  · have haccepts := (h.consistent x hmem).1 f value hreturned
    exact ⟨fun _ => haccepts.accepts_declared, haccepts.inferred?_eq⟩
  · obtain ⟨first, -, hlogged⟩ := h.logged
    exact hlogged.kept
  · exact callFunction_eq_ok.2 ⟨hcheck, hdepth, .next, hbody, .inr ⟨rfl, rfl, by simp [hf]⟩⟩
  · exact runReturn_first hvalue hf hnone
  · exact runReturn_again hvalue hf hsame
  · exact runReturn_other hvalue hf ht hne

/-- The call inside of the other one returns first. -/
theorem Idle.returns_enforced_of_recursion :
    let ctx : Context := ⟨"main.vi", false, 200, .standard, .empty⟩
    let source := "fn f(n) \x7b if n == 0 \x7b return \"s\"; \x7d let r = f(n - 1); " ++
      "return 1; \x7d fn main(files) \x7b f(1); \x7d"
    let m := (execute 8 ctx source (.first ctx (.empty none))).2
    Idle ctx m ∧ m.world.inferred? 0 = some .string ∧
      m.moments.Pairwise fun later earlier => earlier.Kept later := by
  intro ctx source m
  have h : Idle ctx m := (Idle.first _).executed 8 source
  exact ⟨h, by decide +kernel, h.returns_enforced.2.2.1⟩

end Script

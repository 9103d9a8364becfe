import Script.Proofs.Eval.Lockstep.Alone
import Script.Proofs.Eval.Returns

/-!
# How runs fail

A run that is put together from others fails when the first of them does, and with the same error
unless it maps it. What looks names up, binds them, checks types or calls a native raises its errors
itself, so they belong to no statement yet.
-/

namespace Script

namespace Run

variable {m n : Machine} {e e' : Error}

def Fails (x : Run α) (m : Machine) (e : Error) : Prop :=
  ∃ n, x m = .error (.failed e) n

theorem Fails.unique {x : Run α} (h : x.Fails m e) (h' : x.Fails m e') : e' = e := by
  obtain ⟨n, hn⟩ := h
  obtain ⟨n', hn'⟩ := h'
  cases hn.symm.trans hn'
  rfl

theorem not_fails_of_ok {x : Run α} {a : α} (h : x m = .ok a n) : ¬x.Fails m e := by
  rintro ⟨_, hfails⟩
  cases h.symm.trans hfails

theorem fails_bind {x : Run α} {g : α → Run β} :
    (x >>= g).Fails m e ↔ x.Fails m e ∨ ∃ a n, x m = .ok a n ∧ (g a).Fails n e := by
  cases hx : x m with
  | ok a n => simp [Fails, bind_of_ok hx, hx]
  | error stop n => simp [Fails, bind_of_error hx, hx]

theorem not_fails_pure (a : α) : ¬(pure a : Run α).Fails m e :=
  not_fails_of_ok rfl

theorem fails_map {x : Run α} {g : α → β} : (g <$> x).Fails m e ↔ x.Fails m e := by
  rw [map_eq_bind, fails_bind]
  exact or_iff_left fun ⟨_, _, _, h⟩ => not_fails_pure _ h

theorem fails_raise {cause : Cause} (h : (raise cause : Run α).Fails m e) : e = .ofCause cause := by
  obtain ⟨n, hn⟩ := h
  cases hn
  rfl

theorem fails_mapError {g : Error → Error} {x : Run α} :
    (mapError g x).Fails m e ↔ ∃ e', x.Fails m e' ∧ e = g e' := by
  cases hx : x m with
  | ok a n => simp [Fails, mapError_of_ok hx, hx]
  | error stop n =>
    cases stop <;> simp [Fails, mapError_of_error hx, hx, Stop.mapError, eq_comm]

theorem fails_attributedTo {ctx : Context} (hdebug : ctx.debug = false) {kind : StmtKind}
    {position : Position} {x : Run α} :
    (attributedTo ctx kind position x).Fails m e ↔
      ∃ e', x.Fails m e' ∧ e = e'.atStatement kind position := by
  rw [attributedTo, if_neg (by simp [hdebug])]
  exact fails_mapError

theorem fails_withScope {inner : Run α} :
    (withScope m.active inner).Fails m e ↔ inner.Fails m.enterScope e := by
  unfold Fails withScope Machine.enterScope
  dsimp only
  cases inner _ <;> simp

theorem fails_deeper {f : UserFunction} {inner : Run α} :
    (deeper f inner).Fails m e ↔ inner.Fails (m.enterCall f) e := by
  unfold Fails deeper Machine.enterCall
  dsimp only
  cases inner _ <;> simp

/-! ### Errors of no statement -/

/-- What the run fails with has not reached a statement. -/
def Plain (x : Run α) : Prop := ∀ m e, x.Fails m e → ∃ cause, e = .ofCause cause

namespace Plain

theorem pure (a : α) : (Pure.pure a : Run α).Plain :=
  fun _ _ h => absurd h (not_fails_pure a)

theorem raise (cause : Cause) : (Run.raise cause : Run α).Plain :=
  fun _ _ h => ⟨cause, fails_raise h⟩

theorem bind {x : Run α} {g : α → Run β} (hx : x.Plain) (hg : ∀ a, (g a).Plain) :
    (x >>= g).Plain := fun m e h => by
  obtain hx' | ⟨a, n, -, hg'⟩ := fails_bind.1 h
  · exact hx m e hx'
  · exact hg a n e hg'

theorem get : (MonadState.get : Run Machine).Plain :=
  fun _ _ h => absurd h (not_fails_of_ok rfl)

theorem update (f : State → State) : (Run.update f).Plain :=
  fun _ _ h => absurd h (not_fails_of_ok rfl)

theorem record (event : Event) (f : State → State) : (Run.record event f).Plain :=
  fun _ _ h => absurd h (not_fails_of_ok rfl)

theorem ofExcept (result : Except Cause α) : (Run.ofExcept result).Plain := by
  cases result with
  | ok a => exact pure a
  | error cause => exact raise cause

theorem updateArena (f : Arena → Except Cause Arena) : (Run.updateArena f).Plain :=
  bind get fun _ => bind (ofExcept _) fun _ => update _

theorem lookup (name : String) : (Run.lookup name).Plain :=
  bind get fun _ => ofExcept _

theorem declare (scope : ScopeId) (name : Identifier) (value : Value) (constant : Bool) :
    (Run.declare scope name value constant).Plain := by
  intro m e ⟨n, hn⟩
  obtain ⟨_, -, ⟨cause, -, herror⟩ | ⟨_, -, hok⟩⟩ := declare_ends scope name value constant m
  · cases hn.symm.trans herror
    exact ⟨cause, rfl⟩
  · cases hn.symm.trans hok

theorem declareGlobal (name : Identifier) (value : Value) (constant : Bool) :
    (Run.declareGlobal name value constant).Plain :=
  bind (declare _ _ _ _) fun _ => record _ _

theorem reassign (name : String) (value : Value) : (Run.reassign name value).Plain :=
  bind get fun _ => updateArena _

theorem callNative (f : Native) (arguments : List Value) : (Run.callNative f arguments).Plain := by
  unfold Run.callNative
  split
  · exact fun _ _ ⟨_, h⟩ => nomatch h
  · refine bind get fun m => ?_
    rcases f.call arguments m.world.output with ⟨result, output⟩
    exact bind (update _) fun _ => ofExcept result

theorem checkResult (f : UserFunction) (value : Value) : (Run.checkResult f value).Plain :=
  bind get fun m => by
    split
    · exact bind (ofExcept _) fun _ => record _ _
    · exact record _ _

theorem resolve (ascription : TypeExpr) : (Script.resolve ascription).Plain := by
  induction ascription with
  | named name _ =>
    rw [Script.resolve]
    refine bind get fun m => ?_
    split
    · exact pure _
    · exact raise _
  | listOf element ih =>
    rw [Script.resolve]
    exact bind ih fun _ => pure _

theorem resolve? (ascription : Option TypeExpr) : (Script.resolve? ascription).Plain := by
  cases ascription with
  | none => exact pure _
  | some ascription => exact bind (resolve ascription) fun _ => pure _

theorem bindParameters (parameters : List (Identifier × Option DeclaredType))
    (arguments : List Value) : (Script.bindParameters parameters arguments).Plain := by
  induction parameters generalizing arguments with
  | nil => exact pure ()
  | cons parameter parameters ih =>
    cases arguments with
    | nil => exact pure ()
    | cons argument arguments =>
      exact bind get fun _ => bind (updateArena _) fun _ => ih arguments

theorem resultOf (f : UserFunction) (flow : Flow) : (Script.resultOf f flow).Plain := by
  cases flow with
  | returned value => exact pure value
  | next =>
    rw [Script.resultOf]
    split
    · exact bind (ofExcept _) fun _ => pure _
    · exact pure _

theorem mapM {g : α → Run β} (hg : ∀ a, (g a).Plain) (as : List α) : (as.mapM g).Plain := by
  induction as with
  | nil => exact pure []
  | cons a as ih =>
    rw [List.mapM_cons]
    exact bind (hg a) fun _ => bind ih fun _ => pure _

theorem runFunctionDeclaration (name : Identifier) (parameters : List Parameter)
    (returns : Option TypeExpr) (body : Block) (span : Span) :
    (Script.runFunctionDeclaration name parameters returns body span).Plain :=
  bind (mapM (fun _ => bind (resolve? _) fun _ => pure _) parameters) fun _ =>
    bind (resolve? returns) fun _ =>
    bind (bind get fun _ => bind (record _ _) fun _ => pure _) fun _ =>
    bind get fun _ => declare _ _ _ _

theorem bindNames (found : List (Identifier × Value)) : (Script.bindNames found).Plain := by
  induction found with
  | nil => exact pure ()
  | cons entry found ih => exact bind get fun _ => bind (declare _ _ _ _) fun _ => ih

end Plain

/-- What the run fails with has not reached a statement, unless the other run fails with it. -/
def PlainBut (x : Run α) (y : Run β) : Prop :=
  ∀ m e, x.Fails m e → y.Fails m e ∨ ∃ cause, e = .ofCause cause

namespace PlainBut

theorem refl (x : Run α) : x.PlainBut x := fun _ _ h => .inl h

theorem bind {x : Run α} {y : Run γ} {g : α → Run β} (hx : x.PlainBut y) (hg : ∀ a, (g a).Plain) :
    (x >>= g).PlainBut y := fun m e h => by
  obtain hx' | ⟨a, n, -, hg'⟩ := fails_bind.1 h
  · exact hx m e hx'
  · exact .inr (hg a n e hg')

variable (call : Caller)

theorem evaluateCondition (expr : Expr) :
    (Script.evaluateCondition call expr).PlainBut (evaluate call expr) :=
  (refl _).bind fun _ => .ofExcept _

theorem runDeclaration (name : Identifier) (constant global : Bool) (ascription : Option TypeExpr)
    (value : Expr) :
    (Script.runDeclaration call name constant global ascription value).PlainBut
      (evaluate call value) := by
  have hbinds (value : Value) : Plain (do
      if global then Run.declareGlobal name value constant
      else Run.declare (← MonadState.get).active name value constant) := by
    split
    · exact .declareGlobal _ _ _
    · exact .bind .get fun _ => .declare _ _ _ _
  refine (refl _).bind fun value => ?_
  cases ascription with
  | none => exact hbinds _
  | some ascription =>
    exact .bind (.resolve ascription) fun _ => .bind (.ofExcept _) fun _ => hbinds _

theorem runReassignment (name : Identifier) (value : Expr) :
    (Script.runReassignment call name value).PlainBut (evaluate call value) :=
  (refl _).bind fun _ => .reassign _ _

theorem runReturn (f : UserFunction) (value : Expr) :
    (Script.runReturn call f (some value)).PlainBut (evaluate call value) := by
  rw [runReturn_some]
  exact (refl _).bind fun _ => .bind (.checkResult _ _) fun _ => .pure _

end PlainBut

end Run

end Script

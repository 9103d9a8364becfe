import Script.Proofs.Harmless

/-!
# Legible refusals

What is refused for a plain reason has a legible message, and so has an operation whose sign is
written on one line. The failure of a write and the number of a scope that is not live are shown on
one line as well.
-/

namespace Script

theorem Cause.Plain.legible {cause : Cause} (h : cause.Plain) : cause.Legible :=
  .inl (h.1 ▸ unbroken_empty)

theorem RefusedAs.legible {result : Except Cause α} (h : RefusedAs Cause.Plain result) :
    RefusedAs Cause.Legible result :=
  h.mono fun _ => Cause.Plain.legible

theorem Operation.legible_apply (op : Operation) {symbol : String} (h : Unbroken symbol)
    (left right : Value) : RefusedAs Cause.Legible (op.apply symbol left right) :=
  op.refused_apply (fun _ => Cause.Plain.legible) (fun _ _ => .inl h) left right

theorem UnaryOp.legible_apply (op : UnaryOp) {symbol : String} (h : Unbroken symbol)
    (value : Value) : RefusedAs Cause.Legible (op.apply symbol value) :=
  op.refused_apply (fun _ => Cause.Plain.legible) (fun _ _ => .inl h) value

theorem Native.legible_call (f : Native) (arguments : List Value) (sink : Sink) :
    RefusedAs Cause.Legible (f.call arguments sink).1 := by
  have hresult := (f.plain_result arguments).legible
  cases f with
  | print =>
    unfold call
    dsimp only
    split
    · exact .ok _
    · refine .error (.inl (show Unbroken s!"failed to write output: {Sink.full}" from ?_))
      decide
  | _ => exact hresult

/-! ### Scopes -/

namespace Arena

theorem legible_scope (a : Arena) (id : ScopeId) : RefusedAs Cause.Legible (a.scope id) := by
  have hwords : Unbroken "environment " ∧ Unbroken " is not live" := by decide
  unfold scope
  split
  · exact .ok _
  · refine .error (.inl (show Unbroken s!"environment {id} is not live" from ?_))
    simp only [unbroken_append, unbroken_nat, unbroken_toString, hwords, and_self]

theorem legible_find? (a : Arena) (name : String) (bound : Nat) (id : ScopeId) :
    RefusedAs Cause.Legible (a.find? name bound id) := by
  induction bound generalizing id with
  | zero => exact .ok _
  | succ bound ih =>
    refine .bind (a.legible_scope id) fun scope => ?_
    split
    · exact .ok _
    · exact ih _
    · exact .ok _

theorem legible_lookup (a : Arena) (id : ScopeId) (name : String) :
    RefusedAs Cause.Legible (a.lookup id name) := by
  unfold lookup
  split
  · exact .ok _
  · refine .bind (a.legible_find? _ _ _) fun binding => ?_
    split
    · exact .ok _
    · exact .error (.inl unbroken_empty)

theorem legible_lookupLocal (a : Arena) (id : ScopeId) (name : String) :
    RefusedAs Cause.Legible (a.lookupLocal id name) :=
  .bind (a.legible_scope id) fun _ => .ok _

theorem legible_isBound (a : Arena) (id : ScopeId) (name : String) (recursive : Bool) :
    RefusedAs Cause.Legible (a.isBound id name recursive) := by
  have houtward (bound : Nat) (id : ScopeId) :
      RefusedAs Cause.Legible (a.holdsOutward name bound id) := by
    induction bound generalizing id with
    | zero => exact .ok _
    | succ bound ih =>
      refine .bind (a.legible_scope id) fun scope => .ite (.ok _) ?_
      split
      · exact ih _
      · exact .ok _
  exact .ite (.ok _) (houtward _ _)

theorem legible_bind (a : Arena) (id : ScopeId) (name : String) (value : Value)
    (constant : Bool) : RefusedAs Cause.Legible (a.bind id name value constant) :=
  .bind (a.legible_scope id) fun _ => .ok _

theorem legible_declare (a : Arena) (id : ScopeId) (name : Identifier) (value : Value)
    (constant : Bool) : RefusedAs Cause.Legible (a.declare id name value constant).2 := by
  have hbound := a.legible_isBound id name.name true
  unfold declare
  split
  · next hcause => exact .error (hbound _ hcause)
  · exact .map (a.legible_bind _ _ _ _) _
  · exact .map (a.legible_bind _ _ _ _) _

theorem legible_assignmentTarget (a : Arena) (name : String) (bound : Nat)
    (nearest : Option ScopeId) (id : ScopeId) :
    RefusedAs Cause.Legible (a.assignmentTarget name bound nearest id) := by
  induction bound generalizing nearest id with
  | zero => exact .ok _
  | succ bound ih =>
    refine .bind (a.legible_scope id) fun scope => ?_
    dsimp only
    cases scope.parent with
    | none =>
      split
      · exact .error (.inl unbroken_empty)
      · exact .ok _
      · exact .ok _
    | some parent =>
      split
      · exact .bind (.error (.inl unbroken_empty)) fun _ => ih _ _
      · exact .bind (.ok _) fun _ => ih _ _
      · exact .bind (.ok _) fun _ => ih _ _

theorem legible_reassign (a : Arena) (id : ScopeId) (name : String) (value : Value) :
    RefusedAs Cause.Legible (a.reassign id name value) := by
  have hrefused : RefusedAs Cause.Legible (.error (.constReassignment name) : Except Cause Arena) :=
    .error (.inl unbroken_empty)
  refine .ite hrefused ?_
  refine .bind (a.legible_assignmentTarget _ _ _ _) fun target => ?_
  cases target with
  | none => exact .error (.inl unbroken_empty)
  | some target =>
    refine .bind (a.legible_scope target) fun scope => ?_
    cases scope.get? name with
    | none => exact .ok _
    | some binding => exact .bind (DeclaredType.plain_check _ _).legible fun _ => .ok _

end Arena

end Script

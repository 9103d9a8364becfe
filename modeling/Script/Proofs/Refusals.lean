import Script.Eval.Module
import Script.Proofs.Text.Lines

/-!
# Refusals

Every computation with values may be refused. Operators, types, arguments and imported names are
refused for reasons that a program can be blamed for and that quote whatever they show; only the sign
of an operator is shown as it is written.
-/

namespace Script

/-- The message shows no text as it is, and the interpreter is not to blame. -/
def Cause.Plain (cause : Cause) : Prop := cause.raw = "" ∧ cause.kind ≠ .fatal

/-- What the computation is refused with, if it is, is as `P` says. -/
def RefusedAs (P : Cause → Prop) (result : Except Cause α) : Prop :=
  ∀ cause, result = .error cause → P cause

namespace RefusedAs

variable {P Q : Cause → Prop}

theorem ok (a : α) : RefusedAs P (.ok a : Except Cause α) := nofun

theorem error {cause : Cause} (h : P cause) : RefusedAs P (.error cause : Except Cause α) :=
  fun _ hcause => Except.error.inj hcause ▸ h

theorem plain {cause : Cause} (hraw : cause.raw = "") (hkind : cause.kind ≠ .fatal) :
    RefusedAs Cause.Plain (.error cause : Except Cause α) :=
  error ⟨hraw, hkind⟩

theorem mono {result : Except Cause α} (h : RefusedAs P result) (hPQ : ∀ cause, P cause → Q cause) :
    RefusedAs Q result :=
  fun cause hcause => hPQ cause (h cause hcause)

theorem bind_of_ok {x : Except Cause α} {f : α → Except Cause β} (hx : RefusedAs P x)
    (hf : ∀ a, x = .ok a → RefusedAs P (f a)) : RefusedAs P (x >>= f) := by
  cases x with
  | ok a => exact hf a rfl
  | error cause => exact error (hx cause rfl)

theorem bind {x : Except Cause α} {f : α → Except Cause β} (hx : RefusedAs P x)
    (hf : ∀ a, RefusedAs P (f a)) : RefusedAs P (x >>= f) :=
  hx.bind_of_ok fun a _ => hf a

theorem map {x : Except Cause α} (hx : RefusedAs P x) (f : α → β) : RefusedAs P (x.map f) := by
  cases x with
  | ok a => exact ok _
  | error cause => exact error (hx cause rfl)

theorem ite {c : Prop} [Decidable c] {x y : Except Cause α} (hx : RefusedAs P x)
    (hy : RefusedAs P y) : RefusedAs P (if c then x else y) := by
  split
  · exact hx
  · exact hy

end RefusedAs

/-! ### Values -/

theorem DeclaredType.plain_check (declared : DeclaredType) (value : Value) :
    RefusedAs Cause.Plain (declared.check value) :=
  .ite (.ok ()) (.plain rfl nofun)

namespace Value

theorem plain_condition (value : Value) : RefusedAs Cause.Plain value.condition := by
  rw [condition]
  split
  · exact .ok _
  · exact .plain rfl nofun

theorem plain_asIndex (value : Value) : RefusedAs Cause.Plain value.asIndex := by
  rw [asIndex]
  split
  · exact .ok _
  · exact .plain rfl nofun

theorem plain_itemAt (items : List α) (index : Integer) :
    RefusedAs Cause.Plain (itemAt items index) := by
  unfold itemAt
  split
  · exact .ok _
  · exact .plain rfl nofun

theorem plain_get (value : Value) (index : Integer) : RefusedAs Cause.Plain (value.get index) := by
  unfold get
  split
  · exact plain_itemAt _ _
  · exact .map (plain_itemAt _ _) _
  · exact .plain rfl nofun

end Value

theorem plain_exactResult (result : Option Integer) :
    RefusedAs Cause.Plain (exactResult result) := by
  unfold exactResult
  split
  · exact .ok _
  · exact .plain rfl nofun

theorem plain_divisionResult (divisor : Integer) (result : Option Integer) :
    RefusedAs Cause.Plain (divisionResult divisor result) :=
  .ite (.plain rfl nofun) (plain_exactResult result)

section

variable {P : Cause → Prop} (hplain : ∀ cause : Cause, cause.Plain → P cause) {symbol : String}
  (hsymbol : ∀ left right, P (.invalidOperation symbol left right))

include hplain hsymbol

/-- An operation is refused for a plain reason, or because it does not know the operands. -/
theorem Operation.refused_apply (op : Operation) (left right : Value) :
    RefusedAs P (op.apply symbol left right) := by
  unfold apply
  split
  all_goals first
    | exact .ok _
    | exact (plain_exactResult _).mono hplain
    | exact (plain_divisionResult _ _).mono hplain
    | exact .error (hsymbol _ _)

theorem UnaryOp.refused_apply (op : UnaryOp) (value : Value) :
    RefusedAs P (op.apply symbol value) := by
  unfold apply
  split
  · exact (plain_exactResult _).mono hplain
  · exact .ok _
  · exact .error (hsymbol _ _)

end

/-! ### Arguments -/

theorem plain_checkArity (expected received : Nat) :
    RefusedAs Cause.Plain (checkArity expected received) :=
  .ite (.plain rfl nofun) (.ite (.plain rfl nofun) (.ok ()))

theorem UserFunction.plain_checkTypes (parameters : List (Identifier × Option DeclaredType))
    (arguments : List Value) : RefusedAs Cause.Plain (checkTypes parameters arguments) := by
  fun_induction checkTypes parameters arguments with
  | case1 name declared parameters argument arguments _ ih => exact ih
  | case2 => exact .plain rfl nofun
  | case3 name parameters argument arguments ih => exact ih
  | case4 => exact .ok _

theorem UserFunction.plain_checkArguments (f : UserFunction) (arguments : List Value) :
    RefusedAs Cause.Plain (f.checkArguments arguments) :=
  .bind (plain_checkArity _ _) fun _ => plain_checkTypes _ _

theorem Native.plain_result (f : Native) (arguments : List Value) :
    RefusedAs Cause.Plain (f.result arguments) := by
  rw [result]
  cases f.arity? with
  | none =>
    dsimp only
    split
    · exact .ok _
    · exact .plain rfl nofun
  | some expected =>
    refine .bind (plain_checkArity _ _) fun _ => ?_
    split
    · exact .ok _
    · exact .plain rfl nofun

/-! ### Imported names -/

theorem refused_findNames {P : Cause → Prop} {module : String}
    {find : String → Except Cause (Option Value)} (hmissing : ∀ name, P (.importNotFound name module))
    (hfind : ∀ name, RefusedAs P (find name)) (names : List Identifier) :
    RefusedAs P (findNames module find names) := by
  induction names with
  | nil => exact .ok _
  | cons name names ih =>
    refine .bind (hfind name.name) fun value => ?_
    cases value with
    | none => exact .error (hmissing name.name)
    | some value => exact .bind ih fun _ => .ok _

theorem plain_findInLibrary (ctx : Context) (module : String) (names : List Identifier) :
    RefusedAs Cause.Plain (findInLibrary ctx module names) := by
  unfold findInLibrary
  split
  · exact refused_findNames (fun _ => ⟨rfl, nofun⟩) (fun _ => .ok _) names
  · exact .plain rfl nofun

end Script

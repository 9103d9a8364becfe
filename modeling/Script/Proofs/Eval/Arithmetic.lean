import Script.Proofs.Eval.Evaluator
import Script.Proofs.Eval.Lockstep

/-!
# Integer arithmetic is exact or refused

A tree of arithmetic operations on operands that are integers of the language has an exact value,
without bounds. Its subexpressions are evaluated in order, each after its own operands. Evaluation
gives the exact value, or fails at the first subexpression that divides by zero or does not fit. A
remainder fits only if the quotient does too: it is refused along with the division, although it
could be represented itself.
-/

namespace Script

/-- The number is an integer of the language. -/
def Representable (x : Int) : Prop := minInteger ≤ x ∧ x ≤ maxInteger

instance : DecidablePred Representable := fun x =>
  inferInstanceAs (Decidable (minInteger ≤ x ∧ x ≤ maxInteger))

theorem Integer.representable (n : Integer) : Representable n.val := ⟨n.min_le, n.le_max⟩

theorem Integer.ofInt?_of_representable {x : Int} (h : Representable x) :
    ofInt? x = some ⟨x, h.1, h.2⟩ :=
  dif_pos h

theorem Integer.ofInt?_of_not_representable {x : Int} (h : ¬Representable x) : ofInt? x = none :=
  dif_neg h

/-! ### Operations -/

/-- The operations that take integers to integers. -/
inductive ArithmeticOp where
  | add
  | subtract
  | multiply
  | divide
  | remainder
  deriving DecidableEq

namespace ArithmeticOp

def operation : ArithmeticOp → Operation
  | add => .add
  | subtract => .subtract
  | multiply => .multiply
  | divide => .divide
  | remainder => .remainder

def symbol : ArithmeticOp → String
  | add => "+"
  | subtract => "-"
  | multiply => "*"
  | divide => "/"
  | remainder => "%"

/-- The exact result. A quotient is rounded toward zero, and a remainder has the sign of the
dividend. -/
def exact : ArithmeticOp → Int → Int → Int
  | add, x, y => x + y
  | subtract, x, y => x - y
  | multiply, x, y => x * y
  | divide, x, y => x.tdiv y
  | remainder, x, y => x.tmod y

def Divides (op : ArithmeticOp) : Prop := op = divide ∨ op = remainder

instance : DecidablePred Divides := fun op =>
  inferInstanceAs (Decidable (op = divide ∨ op = remainder))

/-- The result is representable, and so is the quotient that goes with a remainder. -/
def Fits (op : ArithmeticOp) (x y : Int) : Prop :=
  Representable (op.exact x y) ∧ (op = remainder → Representable (x.tdiv y))

instance (op : ArithmeticOp) (x y : Int) : Decidable (op.Fits x y) :=
  inferInstanceAs (Decidable (_ ∧ (_ → _)))

/-- The result that the operation has for integers of the language, if it is not refused. -/
def result? : ArithmeticOp → Integer → Integer → Option Integer
  | add, x, y => x.add? y
  | subtract, x, y => x.sub? y
  | multiply, x, y => x.mul? y
  | divide, x, y => x.quot? y
  | remainder, x, y => x.rem? y

theorem apply_eq (op : ArithmeticOp) (symbol : String) (x y : Integer) :
    op.operation.apply symbol (.integer x) (.integer y) =
      if op.Divides ∧ y.val = 0 then .error .divisionByZero else exactResult (op.result? x y) := by
  cases op with
  | divide | remainder =>
    simp only [operation, Operation.apply, divisionResult, Divides, result?, reduceCtorEq, or_true,
      or_false, true_and]
  | _ => exact (if_neg (by simp [Divides])).symm

variable {op : ArithmeticOp} {x y : Integer}

theorem result?_of_fits (h : op.Fits x.val y.val) :
    op.result? x y = some ⟨op.exact x.val y.val, h.1.1, h.1.2⟩ := by
  cases op with
  | remainder =>
    rw [result?, Integer.rem?, Integer.quot?, Integer.ofInt?_of_representable (h.2 rfl)]
    exact Integer.ofInt?_of_representable h.1
  | _ => exact Integer.ofInt?_of_representable h.1

theorem result?_of_not_fits (h : ¬op.Fits x.val y.val) : op.result? x y = none := by
  cases op with
  | remainder =>
    rw [result?, Integer.rem?, Integer.quot?]
    by_cases hquotient : Representable (x.val.tdiv y.val)
    · rw [Integer.ofInt?_of_representable hquotient]
      exact Integer.ofInt?_of_not_representable fun hexact => h ⟨hexact, fun _ => hquotient⟩
    · rw [Integer.ofInt?_of_not_representable hquotient]
      rfl
  | _ => exact Integer.ofInt?_of_not_representable fun hexact => h ⟨hexact, nofun⟩

end ArithmeticOp

/-! ### Trees -/

/-- A tree of operations on integers of the language. -/
inductive Arithmetic where
  | operand (n : Integer)
  | negate (a : Arithmetic)
  | operation (op : ArithmeticOp) (a b : Arithmetic)
  deriving DecidableEq

namespace Arithmetic

/-- The exact value, where nothing divides by zero. -/
def exact : Arithmetic → Int
  | operand n => n.val
  | negate a => -a.exact
  | operation op a b => op.exact a.exact b.exact

/-- The subexpressions in the order in which their evaluation ends: the left operand, the right
operand, then the operation. -/
def order : Arithmetic → List Arithmetic
  | operand n => [operand n]
  | negate a => a.order ++ [negate a]
  | operation op a b => a.order ++ b.order ++ [operation op a b]

/-- The operation itself divides by zero. -/
def ByZero : Arithmetic → Prop
  | operation op _ b => op.Divides ∧ b.exact = 0
  | _ => False

/-- What the expression itself computes from its operands is representable. -/
def Fits : Arithmetic → Prop
  | operand n => Representable n.val
  | negate a => Representable (-a.exact)
  | operation op a b => op.Fits a.exact b.exact

instance : DecidablePred ByZero
  | operand _ | negate _ => inferInstanceAs (Decidable False)
  | operation op _ b => inferInstanceAs (Decidable (op.Divides ∧ b.exact = 0))

instance : DecidablePred Fits
  | operand n => inferInstanceAs (Decidable (Representable n.val))
  | negate a => inferInstanceAs (Decidable (Representable (-a.exact)))
  | operation op a b => inferInstanceAs (Decidable (op.Fits a.exact b.exact))

/-- Why the evaluation of the expression fails once its operands have been evaluated. -/
def fault? (a : Arithmetic) : Option Cause :=
  if a.ByZero then some .divisionByZero else if a.Fits then none else some .integerOverflow

/-- The run gives the exact value and leaves the machine as it is, or just fails with the cause. -/
def Ends (exact : Int) (m : Machine) (x : Run Value) : Option Cause → Prop
  | none => ∃ value n, x m = .ok value m ∧ value.promote = .integer n ∧ n.val = exact
  | some cause => x m = Run.raise cause m

/-- The first of two faults is the one that counts. -/
theorem Ends.bind {exact exact' : Int} {m : Machine} {x : Run Value} {f : Value → Run Value}
    {fault fault' : Option Cause} (hx : Ends exact m x fault)
    (hf : ∀ value n, value.promote = .integer n → n.val = exact → Ends exact' m (f value) fault') :
    Ends exact' m (x >>= f) (fault.or fault') := by
  cases fault with
  | some cause => exact Run.bind_of_error hx
  | none =>
    obtain ⟨value, n, hvalue, hinteger, hn⟩ := hx
    have hends := hf value n hinteger hn
    have hbind := Run.bind_of_ok (f := f) hvalue
    rw [Option.none_or]
    cases fault' with
    | some cause => exact hbind.trans hends
    | none =>
      obtain ⟨result, k, hresult, hk⟩ := hends
      exact ⟨result, k, hbind.trans hresult, hk⟩

/-- The expression is an operand, such as a number or a name that is bound to one: it has an integer
as its value, and evaluating it does nothing else. -/
def Operand (call : Caller) (m : Machine) (expr : Expr) (n : Integer) : Prop :=
  ∃ value, evaluate call expr m = .ok value m ∧ value.promote = .integer n

/-- The expression is written as the tree. -/
inductive Written (call : Caller) (m : Machine) : Expr → Arithmetic → Prop
  | operand {expr : Expr} {n : Integer} (h : Operand call m expr n) :
    Written call m expr (operand n)
  | negate {operator : Operator UnaryOp} {expr : Expr} {a : Arithmetic} (span : Span)
      (hoperator : operator.op = .negate) (h : Written call m expr a) :
    Written call m (.unary operator expr span) (negate a)
  | operation {operator : Operator BinaryOp} (op : ArithmeticOp) {left right : Expr}
      {a b : Arithmetic} (span : Span) (hoperator : operator.op = .operation op.operation)
      (hleft : Written call m left a) (hright : Written call m right b) :
    Written call m (.binary left operator right span) (operation op a b)

/-- The tree as an expression, with numbers for its operands. -/
def toExpr : Arithmetic → Expr
  | operand n => .number n default
  | negate a => .unary ⟨.negate, "-", default⟩ a.toExpr default
  | operation op a b =>
    .binary a.toExpr ⟨.operation op.operation, op.symbol, default⟩ b.toExpr default

theorem written_toExpr (call : Caller) (m : Machine) (tree : Arithmetic) :
    Written call m tree.toExpr tree := by
  induction tree with
  | operand n => exact .operand ⟨.integer n, by rw [toExpr, evaluate]; rfl, rfl⟩
  | negate a ih => exact .negate default rfl ih
  | operation op a b iha ihb => exact .operation op default rfl iha ihb

variable {call : Caller} {m : Machine} {expr : Expr} {tree a b : Arithmetic}

theorem fault?_eq_none : tree.fault? = none ↔ ¬tree.ByZero ∧ tree.Fits := by
  unfold fault?
  split
  · simp [*]
  · split <;> simp [*]

theorem fault?_eq_some {cause : Cause} : tree.fault? = some cause ↔
    tree.ByZero ∧ cause = .divisionByZero ∨
      ¬tree.ByZero ∧ ¬tree.Fits ∧ cause = .integerOverflow := by
  unfold fault?
  split
  · simp [*, eq_comm]
  · split <;> simp [*, eq_comm]

theorem ends_negate {n : Integer} (hn : n.val = a.exact) (symbol : String) :
    Ends (negate a).exact m (Run.ofExcept (UnaryOp.negate.apply symbol (.integer n)))
      (negate a).fault? := by
  have happly : UnaryOp.negate.apply symbol (.integer n) = exactResult n.neg? := rfl
  have hzero : ¬(negate a).ByZero := id
  rw [happly, Integer.neg?, hn]
  by_cases h : (negate a).Fits
  · rw [fault?_eq_none.2 ⟨hzero, h⟩, Integer.ofInt?_of_representable h]
    exact ⟨_, _, rfl, rfl, rfl⟩
  · rw [fault?_eq_some.2 (.inr ⟨hzero, h, rfl⟩), Integer.ofInt?_of_not_representable h]
    rfl

theorem ends_apply {op : ArithmeticOp} {x y : Integer} (hx : x.val = a.exact)
    (hy : y.val = b.exact) (symbol : String) :
    Ends (operation op a b).exact m
      (Run.ofExcept (op.operation.apply symbol (.integer x) (.integer y)))
      (operation op a b).fault? := by
  have hfault : (operation op a b).fault? = if op.Divides ∧ y.val = 0 then some .divisionByZero
      else if op.Fits x.val y.val then none else some .integerOverflow := by
    rw [hx, hy]
    rfl
  rw [op.apply_eq, hfault]
  split
  · rfl
  · split
    · next hfits =>
      rw [ArithmeticOp.result?_of_fits hfits]
      exact ⟨_, _, rfl, rfl, congrArg₂ op.exact hx hy⟩
    · next hfits =>
      rw [ArithmeticOp.result?_of_not_fits hfits]
      rfl

/-- Evaluation ends as the first fault in the order of evaluation says. -/
theorem Written.ends (h : Written call m expr tree) :
    Ends tree.exact m (evaluate call expr) (tree.order.findSome? fault?) := by
  induction h with
  | @operand expr n h =>
    obtain ⟨value, hvalue, hinteger⟩ := h
    have hfault : (Arithmetic.operand n).fault? = none := fault?_eq_none.2 ⟨id, n.representable⟩
    rw [order, List.findSome?_singleton, hfault]
    exact ⟨value, n, hvalue, hinteger, rfl⟩
  | @negate operator expr a span hoperator h ih =>
    rw [order, List.findSome?_append, List.findSome?_singleton, evaluate, hoperator]
    refine ih.bind fun value n hinteger hn => ?_
    rw [hinteger]
    exact ends_negate hn operator.text
  | @operation operator op left right a b span hoperator hleft hright ihleft ihright =>
    rw [order, List.findSome?_append, List.findSome?_append, List.findSome?_singleton,
      Option.or_assoc, evaluate_of_operation hoperator]
    refine ihleft.bind fun first x hx hxexact => ihright.bind fun second y hy hyexact => ?_
    rw [hx, hy]
    exact ends_apply hxexact hyexact operator.text

/-- Evaluation gives the exact value if and only if no subexpression divides by zero and all fit.
Otherwise it fails at the first one in the order of evaluation that does not, and just fails:
because of a division by zero if that is what it is, and because of an overflow if it does not
fit. -/
theorem Written.exact_or_refused (h : Written call m expr tree) :
    ((∃ value n, evaluate call expr m = .ok value m ∧ value.promote = .integer n ∧
        n.val = tree.exact) ↔ ∀ s ∈ tree.order, ¬s.ByZero ∧ s.Fits) ∧
    ∀ s, tree.order.find? (fun s => s.ByZero ∨ ¬s.Fits) = some s →
      ∃ cause, evaluate call expr m = Run.raise cause m ∧
        (cause = .divisionByZero ↔ s.ByZero) ∧
        (cause = .integerOverflow ↔ ¬s.ByZero ∧ ¬s.Fits) := by
  have hends := h.ends
  constructor
  · simp only [← fault?_eq_none, ← List.findSome?_eq_none_iff]
    cases hfault : tree.order.findSome? fault? with
    | none =>
      rw [hfault] at hends
      exact ⟨fun _ => rfl, fun _ => hends⟩
    | some cause =>
      rw [hfault] at hends
      refine ⟨fun ⟨value, n, hvalue, _⟩ => ?_, nofun⟩
      cases hends.symm.trans hvalue
  · intro s hs
    obtain ⟨hfaulty, before, after, horder, hbefore⟩ := List.find?_eq_some_iff_append.1 hs
    have hnone : before.findSome? fault? = none := by
      simpa [fault?_eq_none] using hbefore
    obtain ⟨cause, hcause⟩ : ∃ cause, s.fault? = some cause := by
      rw [← Option.ne_none_iff_exists', Ne, fault?_eq_none]
      simpa [or_iff_not_imp_left] using hfaulty
    have hfault : tree.order.findSome? fault? = some cause := by
      rw [horder, List.findSome?_append, hnone, Option.none_or, List.findSome?_cons, hcause]
    rw [hfault] at hends
    refine ⟨cause, hends, ?_⟩
    obtain ⟨hzero, rfl⟩ | ⟨hzero, hfits, rfl⟩ := fault?_eq_some.1 hcause <;> simp [*]

/-- In `1 / (1 - 1) + 9223372036854775807 * 2` the division by zero comes first. -/
theorem Written.exact_or_refused_of_zero :
    let ctx : Context := ⟨"main.vi", false, 200, .standard, .empty⟩
    let m := Machine.first ctx (.empty none)
    let one : Arithmetic := .operand ⟨1, by decide, by decide⟩
    let two : Arithmetic := .operand ⟨2, by decide, by decide⟩
    let maximum : Arithmetic := .operand ⟨maxInteger, by decide, by decide⟩
    let tree : Arithmetic := .operation .add (.operation .divide one (.operation .subtract one one))
      (.operation .multiply maximum two)
    Written (callFunction ctx 4) m tree.toExpr tree ∧
      evaluate (callFunction ctx 4) tree.toExpr m = Run.raise .divisionByZero m := by
  intro ctx m one two maximum tree
  have hwritten : Written (callFunction ctx 4) m tree.toExpr tree := written_toExpr _ m tree
  obtain ⟨cause, hraise, hzero, -⟩ := hwritten.exact_or_refused.2
    (.operation .divide one (.operation .subtract one one)) (by decide)
  exact ⟨hwritten, by rw [hraise, hzero.2 (by decide)]⟩

/-- The remainder of the least integer by `-1` is zero, but it is refused. -/
theorem Written.refused_of_minimum :
    let ctx : Context := ⟨"main.vi", false, 200, .standard, .empty⟩
    let m := Machine.first ctx (.empty none)
    let one : Arithmetic := .operand ⟨1, by decide, by decide⟩
    let maximum : Arithmetic := .operand ⟨maxInteger, by decide, by decide⟩
    let tree : Arithmetic := .operation .remainder (.operation .subtract (.negate maximum) one)
      (.negate one)
    Written (callFunction ctx 4) m tree.toExpr tree ∧
      (∀ s ∈ tree.order, ¬s.ByZero ∧ Representable s.exact) ∧ tree.exact = 0 ∧
      evaluate (callFunction ctx 4) tree.toExpr m = Run.raise .integerOverflow m := by
  intro ctx m one maximum tree
  have hwritten : Written (callFunction ctx 4) m tree.toExpr tree := written_toExpr _ m tree
  have hfault : tree.order.findSome? fault? = some .integerOverflow := by rfl
  have hends := hwritten.ends
  rw [hfault] at hends
  exact ⟨hwritten, by decide, by decide, hends⟩

end Arithmetic

end Script

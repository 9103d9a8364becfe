import Script.Value
import Script.Warning

/-!
# Programs at other places

A program keeps the places where its parts were written. A displacement changes these places and
nothing else, in expressions and statements and in the functions that are made of them.
-/

namespace Script

/-- What becomes of places: of the offset, the line and the file. -/
structure Displacement where
  offset : Nat → Nat
  line : Nat → Nat
  file : String → String

namespace Displacement

protected def id : Displacement := ⟨fun n => n, fun n => n, fun file => file⟩

/-- All places are forgotten. -/
def nowhere : Displacement where
  offset _ := Position.unknown.offset
  line _ := Position.unknown.line
  file _ := Position.unknown.file

/-- What counters of 32 bits keep of a place. -/
def counted : Displacement :=
  { Displacement.id with offset := (· % UInt32.size), line := (· % UInt32.size) }

/-- What stands on a line that such a counter has as zero is put on the next one. -/
def onLines : Displacement :=
  { Displacement.id with line := fun n => if n % UInt32.size = 0 then n + 1 else n }

end Displacement

variable (δ : Displacement)

def Position.move (p : Position) : Position := ⟨δ.offset p.offset, δ.line p.line, δ.file p.file⟩

theorem Position.move_counted (p : Position) :
    p.move .counted = ⟨p.offset % UInt32.size, p.line % UInt32.size, p.file⟩ := rfl

theorem Position.move_onLines (p : Position) :
    p.move .onLines = { p with line := if p.line % UInt32.size = 0 then p.line + 1 else p.line } := rfl

def Span.move (span : Span) : Span := ⟨span.start.move δ, span.stop.move δ⟩

def Operator.move (operator : Operator α) : Operator α :=
  { operator with span := operator.span.move δ }

def Identifier.move (name : Identifier) : Identifier := { name with line := δ.line name.line }

mutual

def Expr.move : Expr → Expr
  | .number n span => .number n (span.move δ)
  | .string s span => .string s (span.move δ)
  | .boolean b span => .boolean b (span.move δ)
  | .symbol name span => .symbol name (span.move δ)
  | .list elements span => .list (Expr.moveAll elements) (span.move δ)
  | .binary left operator right span =>
    .binary (Expr.move left) (operator.move δ) (Expr.move right) (span.move δ)
  | .unary operator operand span => .unary (operator.move δ) (Expr.move operand) (span.move δ)
  | .call callee arguments span =>
    .call (Expr.move callee) (Expr.moveAll arguments) (span.move δ)
  | .index target position span => .index (Expr.move target) (Expr.move position) (span.move δ)

def Expr.moveAll : List Expr → List Expr
  | [] => []
  | expr :: exprs => Expr.move expr :: Expr.moveAll exprs

end

def TypeExpr.move : TypeExpr → TypeExpr
  | named name position => .named name (position.move δ)
  | listOf element => .listOf element.move

def Parameter.move (p : Parameter) : Parameter :=
  ⟨p.name.move δ, p.ascription.map (TypeExpr.move δ)⟩

mutual

def Stmt.move : Stmt → Stmt
  | .expression value span => .expression (value.move δ) (span.move δ)
  | .importNames names path span =>
    .importNames (names.map (Identifier.move δ)) path (span.move δ)
  | .declaration name constant global ascription value span =>
    .declaration (name.move δ) constant global (ascription.map (TypeExpr.move δ)) (value.move δ)
      (span.move δ)
  | .reassignment name value span => .reassignment (name.move δ) (value.move δ) (span.move δ)
  | .conditional branch => .conditional (Conditional.move branch)
  | .loop condition body span => .loop (condition.move δ) (Block.move body) (span.move δ)
  | .function name parameters returns body span =>
    .function (name.move δ) (parameters.map (Parameter.move δ)) (returns.map (TypeExpr.move δ))
      (Block.move body) (span.move δ)
  | .returnValue value span => .returnValue (value.map (Expr.move δ)) (span.move δ)

def Conditional.move : Conditional → Conditional
  | .mk condition body otherwise span =>
    .mk (condition.move δ) (Block.move body) (Otherwise.move otherwise) (span.move δ)

def Otherwise.move : Otherwise → Otherwise
  | .nothing => .nothing
  | .block body => .block (Block.move body)
  | .conditional branch => .conditional (Conditional.move branch)

def Block.move : Block → Block
  | .mk statements span => .mk (Stmt.moveAll statements) (span.move δ)

def Stmt.moveAll : List Stmt → List Stmt
  | [] => []
  | stmt :: stmts => Stmt.move stmt :: Stmt.moveAll stmts

end

def UserFunction.move (f : UserFunction) : UserFunction :=
  { f with
    parameters := f.parameters.map fun p => (p.1.move δ, p.2)
    body := f.body.move δ
    position := f.position.move δ }

mutual

/-- Moves a function, or all functions in a list. -/
def Value.move : Value → Value
  | .list items => .list (Value.moveAll items)
  | .function f => .function (f.move δ)
  | value => value

def Value.moveAll : List Value → List Value
  | [] => []
  | item :: items => Value.move item :: Value.moveAll items

end

def Warning.move : Warning → Warning
  | shadowing name line => .shadowing name (δ.line line)
  | warning => warning

/-! ### Lists -/

theorem Expr.moveAll_eq_map (exprs : List Expr) : moveAll δ exprs = exprs.map (move δ) := by
  induction exprs with
  | nil => rw [moveAll, List.map_nil]
  | cons expr exprs ih => rw [moveAll, ih, List.map_cons]

theorem Stmt.moveAll_eq_map (stmts : List Stmt) : moveAll δ stmts = stmts.map (move δ) := by
  induction stmts with
  | nil => rw [moveAll, List.map_nil]
  | cons stmt stmts ih => rw [moveAll, ih, List.map_cons]

theorem Value.moveAll_eq_map (items : List Value) : moveAll δ items = items.map (move δ) := by
  induction items with
  | nil => rw [moveAll, List.map_nil]
  | cons item items ih => rw [moveAll, ih, List.map_cons]

/-! ### What stays -/

@[simp]
theorem Stmt.kind_move (stmt : Stmt) : (stmt.move δ).kind = stmt.kind := by
  cases stmt <;> simp only [move, kind]

@[simp]
theorem Stmt.span_move (stmt : Stmt) : (stmt.move δ).span = stmt.span.move δ := by
  cases stmt with
  | conditional branch =>
    cases branch
    simp only [move, span, Conditional.move, Conditional.span]
  | _ => simp only [move, span]

theorem Block.statements_move (block : Block) :
    (block.move δ).statements = block.statements.map (Stmt.move δ) := by
  cases block
  rw [move, statements, statements, Stmt.moveAll_eq_map]

/-! ### The displacement that moves nothing -/

@[simp]
theorem Identifier.move_id_eq : move .id = id := rfl

mutual

theorem Expr.move_id : (expr : Expr) → expr.move .id = expr
  | .number .. | .string .. | .boolean .. | .symbol .. => by rw [move]; rfl
  | .list elements span => by
    rw [move, Expr.moveAll_id elements]
    rfl
  | .binary left operator right span => by
    rw [move, Expr.move_id left, Expr.move_id right]
    rfl
  | .unary operator operand span => by
    rw [move, Expr.move_id operand]
    rfl
  | .call callee arguments span => by
    rw [move, Expr.move_id callee, Expr.moveAll_id arguments]
    rfl
  | .index target position span => by
    rw [move, Expr.move_id target, Expr.move_id position]
    rfl

theorem Expr.moveAll_id : (exprs : List Expr) → moveAll .id exprs = exprs
  | [] => by rw [moveAll]
  | expr :: exprs => by rw [moveAll, Expr.move_id expr, Expr.moveAll_id exprs]

end

theorem Expr.move_id_eq : move .id = id := funext Expr.move_id

theorem TypeExpr.move_id (ascription : TypeExpr) : ascription.move .id = ascription := by
  induction ascription with
  | named name position => rfl
  | listOf element ih => rw [move, ih]

theorem TypeExpr.move_id_eq : move .id = id := funext TypeExpr.move_id

theorem Parameter.move_id (p : Parameter) : p.move .id = p := by
  rw [move, TypeExpr.move_id_eq, Option.map_id_apply]
  rfl

theorem Parameter.move_id_eq : move .id = id := funext Parameter.move_id

mutual

theorem Stmt.move_id : (stmt : Stmt) → stmt.move .id = stmt
  | .expression value span => by
    rw [Stmt.move, Expr.move_id]
    rfl
  | .importNames names path span => by
    rw [Stmt.move, Identifier.move_id_eq, List.map_id]
    rfl
  | .declaration name constant global ascription value span => by
    rw [Stmt.move, Expr.move_id, TypeExpr.move_id_eq, Option.map_id_apply]
    rfl
  | .reassignment name value span => by
    rw [Stmt.move, Expr.move_id]
    rfl
  | .conditional branch => by rw [Stmt.move, Conditional.move_id branch]
  | .loop condition body span => by
    rw [Stmt.move, Expr.move_id, Block.move_id body]
    rfl
  | .function name parameters returns body span => by
    rw [Stmt.move, Parameter.move_id_eq, List.map_id, TypeExpr.move_id_eq, Option.map_id_apply,
      Block.move_id body]
    rfl
  | .returnValue value span => by
    rw [Stmt.move, Expr.move_id_eq, Option.map_id_apply]
    rfl

theorem Conditional.move_id : (branch : Conditional) → branch.move .id = branch
  | .mk condition body otherwise span => by
    rw [Conditional.move, Expr.move_id, Block.move_id body, Otherwise.move_id otherwise]
    rfl

theorem Otherwise.move_id : (otherwise : Otherwise) → otherwise.move .id = otherwise
  | .nothing => by rw [Otherwise.move]
  | .block body => by rw [Otherwise.move, Block.move_id body]
  | .conditional branch => by rw [Otherwise.move, Conditional.move_id branch]

theorem Block.move_id : (block : Block) → block.move .id = block
  | .mk statements span => by
    rw [Block.move, Stmt.moveAll_id statements]
    rfl

theorem Stmt.moveAll_id : (stmts : List Stmt) → Stmt.moveAll .id stmts = stmts
  | [] => by rw [Stmt.moveAll]
  | stmt :: stmts => by rw [Stmt.moveAll, Stmt.move_id stmt, Stmt.moveAll_id stmts]

end

theorem Stmt.move_id_eq : move .id = id := funext Stmt.move_id

theorem UserFunction.move_id (f : UserFunction) : f.move .id = f := by
  have hparameters : (f.parameters.map fun p => (p.1.move .id, p.2)) = f.parameters :=
    List.map_id f.parameters
  rw [move, hparameters, Block.move_id]
  rfl

theorem Warning.move_id (warning : Warning) : warning.move .id = warning := by
  cases warning <;> rfl

theorem Warning.move_id_eq : move .id = id := funext Warning.move_id

/-- Nothing is where it was, and so nothing can be moved further. -/
theorem Warning.move_nowhere (warning : Warning) :
    (warning.move .nowhere).move .nowhere = warning.move .nowhere := by
  cases warning <;> rfl

@[simp]
theorem Warning.message_move (warning : Warning) : (warning.move δ).message = warning.message := by
  cases warning <;> rfl

end Script

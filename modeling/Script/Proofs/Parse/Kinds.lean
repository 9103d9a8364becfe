import Script.Parse.Stmt

/-!
# Kinds of tokens

What the parts of the parser do with a token depends on its kind alone. Plain kinds neither end a
statement nor open or close a block; all that an expression or a type is made of is plain.
-/

namespace Script

namespace TokenKind

/-- The kinds that neither end a statement nor open or close a block. -/
def Plain (kind : TokenKind) : Prop :=
  kind ≠ .semicolon ∧ kind ≠ .openCurly ∧ kind ≠ .closeCurly

instance (kind : TokenKind) : Decidable kind.Plain :=
  inferInstanceAs (Decidable (_ ∧ _))

/-- The kinds of operators that make an assignment behind a name. -/
def Assigns (kind : TokenKind) : Prop :=
  kind = .assignment ∨ (BinaryOp.ofCompound? kind).isSome

instance (kind : TokenKind) : Decidable kind.Assigns :=
  inferInstanceAs (Decidable (_ ∨ _))

theorem Assigns.plain {kind : TokenKind} (h : kind.Assigns) : kind.Plain ∧ kind ≠ .endOfFile := by
  cases kind <;> first | decide | exact absurd h (by decide)

theorem plain_of_continuation {kind : TokenKind} {continuation : Continuation}
    (h : Continuation.ofKind? kind = some continuation) : kind.Plain := by
  cases kind <;> first | decide | cases h

theorem plain_of_unary {kind : TokenKind} {op : UnaryOp} (h : UnaryOp.ofKind? kind = some op) :
    kind.Plain ∧ kind ≠ .endOfFile := by
  cases kind <;> first | decide | cases h

end TokenKind

namespace Parser

theorem startsReassignment_eq (s : Cursor) :
    startsReassignment s =
      .ok (decide (s.current.kind = .identifier ∧ s.nextKind.Assigns)) s :=
  rfl

theorem kind_of_unary {kind : TokenKind} {op : UnaryOp} (h : UnaryOp.ofKind? kind = some op) :
    (kind = .dash ∧ op = .negate) ∨ (kind = .not ∧ op = .not) := by
  cases kind <;> first
    | exact .inl ⟨rfl, (Option.some.inj h).symm⟩
    | exact .inr ⟨rfl, (Option.some.inj h).symm⟩
    | cases h

theorem kind_of_call {kind : TokenKind} (h : Continuation.ofKind? kind = some .call) :
    kind = .openParen := by
  cases kind <;> first | rfl | cases h

theorem kind_of_index {kind : TokenKind} (h : Continuation.ofKind? kind = some .index) :
    kind = .openBracket := by
  cases kind <;> first | rfl | cases h

end Parser

end Script

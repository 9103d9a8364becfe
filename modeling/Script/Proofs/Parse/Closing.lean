import Script.Proofs.Parse.Completeness

/-!
# What closes an expression

An expression that is all there is up to the end of the file is read in front of anything else in the
same way, if what stands there binds nothing: a semicolon, a closing parenthesis and the end of the
file are all the same to it. This is said of two runs, one in front of the end of the file and one in
front of such a token, with at least as large a bound. The first one reads nothing behind its tokens,
for no parser goes on at the end of the file, and what the second one sees there makes no difference
to an expression that is complete.
-/

namespace Script.Parser

variable {stop : Token} {t : Cursor} {n m bound bound' : Nat} {tokens rest : List Token}

/-- The parser fails there. -/
def Fails (p : Parser α) (s : Cursor) : Prop :=
  ∀ a s', p s ≠ .ok a s'

/-- What the first parser reads in front of the end of the file, the second one reads in front of
`t`, and fewer than `n` of the tokens are left. -/
def Carries (stop : Token) (t : Cursor) (n : Nat) (p q : Parser α) (tokens : List Token) : Prop :=
  ∀ a s, p ⟨tokens, stop⟩ = .ok a s → ∃ left, left.length < n ∧ s = ⟨left, stop⟩ ∧
    q (t.push tokens) = .ok a (t.push left)

theorem Fails.bind {p : Parser α} {s : Cursor} (h : Fails p s) (f : α → Parser β) :
    Fails (p >>= f) s := by
  intro b s' hb
  cases hp : p s with
  | ok a s'' => exact h a s'' hp
  | error e s'' => simp [Bind.bind, EStateM.bind, hp] at hb

theorem fails_failWith (cause : Token → Cause) (s : Cursor) :
    Fails (failWith cause : Parser α) s :=
  nofun

theorem Fails.at_end {f : Token → Parser α} (h : Fails (f stop) ⟨[], stop⟩) :
    Fails (current >>= f) ⟨[], stop⟩ :=
  h

theorem Fails.of_not {c : Prop} [Decidable c] {p q : Parser α} {s : Cursor} (hc : ¬c)
    (h : Fails q s) : Fails (if c then p else q) s := by
  rwa [if_neg hc]

namespace Carries

theorem pure {a : α} (h : tokens.length < n) :
    Carries stop t n (Pure.pure a) (Pure.pure a) tokens := by
  intro b s hb
  cases hb
  exact ⟨tokens, h, rfl, rfl⟩

theorem bind {p q : Parser α} {f g : α → Parser β} (hp : Carries stop t m p q tokens)
    (hf : ∀ a left, left.length < m → Carries stop t n (f a) (g a) left) :
    Carries stop t n (p >>= f) (q >>= g) tokens := by
  intro b s hb
  cases hfirst : p ⟨tokens, stop⟩ with
  | error e s' => simp [Bind.bind, EStateM.bind, hfirst] at hb
  | ok a s' =>
    obtain ⟨left, hleft, rfl, hq⟩ := hp a s' hfirst
    have hrest : f a ⟨left, stop⟩ = .ok b s := (bind_eq hfirst rfl).symm.trans hb
    obtain ⟨left', hleft', hs, hg⟩ := hf a left hleft b s hrest
    exact ⟨left', hleft', hs, bind_eq hq hg⟩

theorem mono {p q : Parser α} (h : Carries stop t m p q tokens) (hle : m ≤ n) :
    Carries stop t n p q tokens := by
  intro a s ha
  obtain ⟨left, hleft, hresult⟩ := h a s ha
  exact ⟨left, Nat.lt_of_lt_of_le hleft hle, hresult⟩

theorem of_fails {p q : Parser α} (h : Fails p ⟨tokens, stop⟩) : Carries stop t n p q tokens :=
  fun a s ha => absurd ha (h a s)

/-- Whoever reads at least one token fails where there is none. -/
theorem fails {p q : Parser α} (h : Carries stop t 0 p q tokens) : Fails p ⟨tokens, stop⟩ := by
  intro a s ha
  obtain ⟨left, hleft, -⟩ := h a s ha
  exact Nat.not_lt_zero _ hleft

theorem ite {c : Prop} [Decidable c] {p p' q q' : Parser α} (hp : c → Carries stop t n p q tokens)
    (hp' : ¬c → Carries stop t n p' q' tokens) :
    Carries stop t n (if c then p else p') (if c then q else q') tokens := by
  split
  · exact hp ‹_›
  · exact hp' ‹_›

theorem current {f g : Token → Parser α} {token : Token}
    (h : Carries stop t n (f token) (g token) (token :: rest)) :
    Carries stop t n (Parser.current >>= f) (Parser.current >>= g) (token :: rest) :=
  h

theorem skip {p q : Parser α} {token : Token} (h : Carries stop t n p q rest) :
    Carries stop t n (do skip; p) (do skip; q) (token :: rest) :=
  h

end Carries

section

variable (hstop : stop.kind = .endOfFile)

include hstop

theorem carries_expect {kind : TokenKind} (hkind : kind ≠ .endOfFile) :
    Carries stop t tokens.length (expect kind) (expect kind) tokens := by
  rw [expect]
  cases tokens with
  | nil => exact .of_fails (.at_end (.of_not (hstop ▸ hkind.symm) (fails_failWith _ _)))
  | cons token rest =>
    refine .current (.ite (fun _ => ?_) fun _ => .of_fails (fails_failWith _ _))
    intro a s ha
    cases ha
    exact ⟨rest, Nat.lt_succ_self _, rfl, rfl⟩

theorem carries_items {item item' : Parser α} {close : TokenKind} (hclose : close ≠ .endOfFile)
    (message : String)
    (hitem : ∀ tokens, tokens.length ≤ n → Carries stop t tokens.length item item' tokens)
    (hle : bound ≤ bound') (hn : tokens.length ≤ n) :
    Carries stop t tokens.length (items item close message bound)
      (items item' close message bound') tokens := by
  have hclosed : stop.kind ≠ close := hstop ▸ hclose.symm
  have hcomma : stop.kind ≠ .comma := by
    rw [hstop]
    decide
  induction bound generalizing bound' tokens with
  | zero =>
    rw [items]
    exact .of_fails (fails_failWith _ _)
  | succ bound ih =>
    obtain ⟨bound', rfl⟩ : ∃ b, bound' = b + 1 := ⟨bound' - 1, by omega⟩
    have hle' := Nat.le_of_succ_le_succ hle
    rw [items, items]
    cases tokens with
    | nil => exact .of_fails (.at_end (.of_not hclosed ((hitem [] (Nat.zero_le n)).fails.bind _)))
    | cons token rest =>
      refine .current (.ite (fun _ => .skip (.pure (Nat.lt_succ_self _))) fun _ => ?_)
      refine .bind (hitem _ hn) fun a left hleft => ?_
      cases left with
      | nil =>
        exact .of_fails (.at_end (.of_not hcomma (.of_not hclosed (fails_failWith _ _))))
      | cons next left =>
        rw [List.length_cons, List.length_cons] at hleft
        rw [List.length_cons] at hn ⊢
        refine .current (.ite (fun _ => .skip ?_) fun _ => .ite (fun _ => .skip ?_) fun _ => ?_)
        · exact (ih hle' (by omega)).bind fun _ _ hlast => .pure (by omega)
        · exact .pure (by omega)
        · exact .of_fails (fails_failWith _ _)

theorem power_at_end : Power.ofKind (Cursor.current ⟨[], stop⟩).kind = .lowest := by
  show Power.ofKind stop.kind = .lowest
  rw [hstop]
  rfl

theorem carries_extend_nil {inner inner' : ExprReader} {power : Power} {left : Expr}
    (ht : Power.ofKind t.current.kind = .lowest) :
    Carries stop t 1 (extend inner power bound left) (extend inner' power bound' left) [] := by
  have returns {inner : ExprReader} {bound : Nat} {s : Cursor}
      (h : Power.ofKind s.current.kind = .lowest) :
      extend inner power bound left s = .ok left s := by
    cases bound with
    | zero => rfl
    | succ bound => exact bind_eq (p := Parser.current) rfl (then_eq (h ▸ Nat.zero_le _) rfl)
  have hend := power_at_end hstop
  intro a s ha
  cases (returns hend).symm.trans ha
  exact ⟨[], Nat.lt_succ_self 0, rfl, returns ht⟩

section

variable {inner inner' : ExprReader}
  (hinner : ∀ power tokens, tokens.length ≤ n →
    Carries stop t tokens.length (inner power) (inner' power) tokens)

include hinner

theorem carries_operand (hle : bound ≤ bound') (hn : tokens.length ≤ n + 1) :
    Carries stop t tokens.length (operand inner bound) (operand inner' bound') tokens := by
  rw [operand, operand]
  cases tokens with
  | nil =>
    refine .of_fails (.at_end ?_)
    rw [hstop]
    exact fails_failWith _ _
  | cons token rest =>
    have hrest : rest.length ≤ n := Nat.le_of_succ_le_succ hn
    have hless := Nat.lt_succ_self rest.length
    refine .current ?_
    split
    · split
      · exact .skip (.pure hless)
      · exact .of_fails (fails_failWith _ _)
    · exact .skip (.pure hless)
    · exact .skip (.pure hless)
    · exact .skip (.pure hless)
    · exact .skip (.pure hless)
    · refine .skip (.bind (hinner _ _ hrest) fun _ left hleft => ?_)
      refine .bind (carries_expect hstop (by decide)) fun _ left' hleft' => .pure ?_
      exact Nat.lt_succ_of_lt (Nat.lt_trans hleft' hleft)
    · refine .skip (.bind (carries_items hstop (by decide) _ (hinner _) hle hrest) ?_)
      exact fun _ left hleft => .pure (Nat.lt_succ_of_lt hleft)
    · split
      · refine .skip (.bind (hinner _ _ hrest) fun _ left hleft => .pure ?_)
        exact Nat.lt_succ_of_lt hleft
      · exact .of_fails (fails_failWith _ _)

theorem carries_extend {power : Power} {left : Expr} (ht : Power.ofKind t.current.kind = .lowest)
    (hle : bound ≤ bound') (hbound : tokens.length ≤ bound) (hn : tokens.length ≤ n) :
    Carries stop t (tokens.length + 1) (extend inner power bound left)
      (extend inner' power bound' left) tokens := by
  induction bound generalizing bound' tokens left with
  | zero =>
    obtain rfl := List.length_eq_zero_iff.1 (Nat.le_zero.1 hbound)
    exact carries_extend_nil hstop ht
  | succ bound ih =>
    obtain ⟨bound', rfl⟩ : ∃ b, bound' = b + 1 := ⟨bound' - 1, by omega⟩
    have hle' := Nat.le_of_succ_le_succ hle
    cases tokens with
    | nil => exact carries_extend_nil hstop ht
    | cons token rest =>
      have hrest : rest.length ≤ n := Nat.le_of_succ_le hn
      have goes_on {left : Expr} {more : List Token} (hmore : more.length < rest.length) :
          Carries stop t (rest.length + 2) (extend inner power bound left)
            (extend inner' power bound' left) more := by
        rw [List.length_cons] at hbound
        exact (ih hle' (by omega) (by omega)).mono (by omega)
      rw [extend, extend]
      refine .current (.ite (fun _ => .pure (Nat.lt_succ_self _)) fun _ => ?_)
      split
      · exact .of_fails (fails_failWith _ _)
      · exact .skip (.bind (hinner _ _ hrest) fun _ _ hmore => goes_on hmore)
      · refine .skip (.bind (carries_items hstop (by decide) _ (hinner _) hle' hrest) ?_)
        exact fun _ _ hmore => goes_on hmore
      · refine .skip (.bind (hinner _ _ hrest) fun _ _ hindex => ?_)
        exact .bind (carries_expect hstop (by decide)) fun _ _ hmore =>
          goes_on (Nat.lt_trans hmore hindex)

end

theorem carries_exprWithin {power : Power} (ht : Power.ofKind t.current.kind = .lowest)
    (hle : bound ≤ bound') (hbound : tokens.length ≤ bound) :
    Carries stop t tokens.length (exprWithin bound power) (exprWithin bound' power) tokens := by
  induction bound generalizing bound' tokens power with
  | zero =>
    rw [exprWithin]
    exact .of_fails (fails_failWith _ _)
  | succ bound ih =>
    obtain ⟨bound', rfl⟩ : ∃ b, bound' = b + 1 := ⟨bound' - 1, by omega⟩
    have hle' := Nat.le_of_succ_le_succ hle
    have hinner (power : Power) (tokens : List Token) (hn : tokens.length ≤ bound) :
        Carries stop t tokens.length (exprWithin bound power) (exprWithin bound' power) tokens :=
      ih hle' hn
    rw [exprWithin, exprWithin]
    refine .bind (carries_operand hstop hinner hle' hbound) fun left more hmore => ?_
    have hlength : more.length ≤ bound := by omega
    exact (carries_extend hstop hinner ht hle' hlength hlength).mono hmore

theorem stop_of_expr {e : Expr} {s : Cursor} (h : expr ⟨tokens, stop⟩ = .ok e s) :
    ∃ left, s = ⟨left, stop⟩ := by
  obtain ⟨left, -, hleft, -⟩ :=
    carries_exprWithin hstop (power_at_end hstop) (Nat.le_refl _) (Nat.le_refl _) e s h
  exact ⟨left, hleft⟩

/-- A whole expression is read in front of whatever binds nothing, with any bound that is not too
small. -/
theorem exprWithin_of_expr {e : Expr} (h : expr ⟨tokens, stop⟩ = .ok e ⟨[], stop⟩)
    (ht : Power.ofKind t.current.kind = .lowest) (hbound : tokens.length ≤ bound) :
    exprWithin bound .lowest (t.push tokens) = .ok e t := by
  obtain ⟨left, -, hleft, hq⟩ := carries_exprWithin hstop ht hbound (Nat.le_refl _) e _ h
  obtain rfl : [] = left := congrArg Cursor.rest hleft
  exact hq

end

end Script.Parser

import Script.Proofs.Parse.Scans

/-!
# Reading the parts of statements

Expressions, types and parameters take no semicolon and no brace, so they leave the parser inside of
the statement they belong to, as deep as before.
-/

namespace Script.Parser

open Cursor

variable {s t : Cursor} {behind : Option (List Token)} {n m b b' : Nat} {depth : Int}
  {tokens rest : List Token} {token : Token}

/-- A parser that stays inside of statements with at most `n` tokens left. -/
def Stay (s t : Cursor) (behind : Option (List Token)) (n : Nat) (depth : Int) (p q : Parser α) :
    Prop :=
  ∀ m tokens, m ≤ n → Within behind m depth tokens →
    Scans s t behind (Stays behind m depth) p q depth tokens

theorem scans_items {item item' : Parser α} {close : TokenKind} {message : String}
    (hitem : Stay s t behind n depth item item') (hclose : close.Plain ∧ close ≠ .endOfFile)
    (hbounds : Bounds behind n b b') (h : Within behind n depth tokens) :
    Scans s t behind (Stays behind n depth) (items item close message b)
      (items item' close message b') depth tokens := by
  induction b generalizing b' n tokens with
  | zero =>
    obtain rfl := hbounds.zero h
    exact .unexpected h
  | succ b ih =>
    obtain ⟨c, rfl, hbelow⟩ := hbounds.succ h
    rw [items]
    refine .current h fun token hcons => .ite (fun hkind => ?_) fun _ => ?_
    · exact .take hkind hclose hcons h fun m rest hm h => .pure ⟨rfl, h.mono (by omega)⟩
    · apply Scans.header (hitem n _ (Nat.le_refl n) h)
      intro a left h
      refine .current h fun token hcons => .ite (fun hkind => ?_) fun _ => .ite (fun hkind => ?_)
        fun _ => .unexpectedBecause _ h
      · apply Scans.take hkind (by decide) hcons h
        intro m rest hm h
        obtain rfl : m = n - 1 := by omega
        exact .bind (ih (fun k tokens hk => hitem k tokens (by omega)) hbelow h)
          fun result depth' left h => .pure ⟨h.1, h.2.mono (by omega)⟩
      · exact .take hkind hclose hcons h fun m rest hm h => .pure ⟨rfl, h.mono (by omega)⟩

section

variable {inner inner' : ExprReader}
  (hinner : ∀ power, Stay s t behind n depth (inner power) (inner' power))

include hinner

theorem scans_operand (hbounds : Bounds behind n b b') (h : Within behind (n + 1) depth tokens) :
    Scans s t behind (Stays behind n depth) (operand inner b) (operand inner' b') depth tokens := by
  have constant {token : Token} {kind : TokenKind} {e : Expr} (hkind : token.kind = kind)
      (hplain : kind.Plain ∧ kind ≠ .endOfFile)
      (hcons : token.kind ≠ .endOfFile → ∃ rest, tokens = token :: rest) :
      Scans s t behind (Stays behind n depth) (do skip; return e) (do skip; return e) depth
        tokens :=
    .take hkind hplain hcons h fun m rest hm h => .pure ⟨rfl, h.mono (by omega)⟩
  rw [operand]
  apply Scans.current h
  intro token hcons
  split
  · next hkind =>
    split
    · exact constant hkind (by decide) hcons
    · exact .failWith h fun _ => rfl
  · next hkind => exact constant hkind (by decide) hcons
  · next hkind => exact constant hkind (by decide) hcons
  · next hkind => exact constant hkind (by decide) hcons
  · next hkind => exact constant hkind (by decide) hcons
  · next hkind =>
    apply Scans.take hkind (by decide) hcons h
    intro m rest hm h
    apply Scans.header (hinner _ m _ (by omega) h)
    intro e left h
    apply Scans.header (scans_expect (by decide) h)
    intro _ left h
    exact .pure ⟨rfl, h.mono (by omega)⟩
  · next hkind =>
    apply Scans.take hkind (by decide) hcons h
    intro m rest hm h
    obtain rfl := Nat.succ.inj hm
    apply Scans.header (scans_items (hinner _) (by decide) hbounds h)
    intro _ left h
    exact .pure ⟨rfl, h⟩
  · split
    · next op hop =>
      apply Scans.take rfl (TokenKind.plain_of_unary hop) hcons h
      intro m rest hm h
      exact .header (hinner _ m _ (by omega) h) fun e left h => .pure ⟨rfl, h.mono (by omega)⟩
    · exact .unexpected h

theorem scans_extend {power : Power} {e : Expr} (hle : m ≤ n) (hbounds : Bounds behind m b b')
    (h : Within behind m depth tokens) :
    Scans s t behind (Stays behind m depth) (extend inner power b e) (extend inner' power b' e)
      depth tokens := by
  induction b generalizing b' m tokens e with
  | zero =>
    obtain rfl := hbounds.zero h
    exact .pure ⟨rfl, h⟩
  | succ b ih =>
    obtain ⟨c, rfl, hbelow⟩ := hbounds.succ h
    have again {m' : Nat} {left : List Token} {e : Expr} (hm : m = m' + 1)
        (h : Within behind m' depth left) :
        Scans s t behind (Stays behind m depth) (extend inner power b e) (extend inner' power c e)
          depth left := by
      obtain rfl : m' = m - 1 := by omega
      exact (ih (by omega) hbelow h).imp fun _ _ _ h => ⟨h.1, h.2.mono (by omega)⟩
    rw [extend]
    apply Scans.current h
    intro token hcons
    apply Scans.ite (fun _ => .pure ⟨rfl, h⟩)
    intro hgt
    have hne : token.kind ≠ .endOfFile := fun heq => by
      rw [heq] at hgt
      exact hgt (Nat.zero_le _)
    obtain ⟨rest, rfl⟩ := hcons hne
    split
    · exact .unexpected h
    · next op hc =>
      apply Scans.skip (TokenKind.plain_of_continuation hc) h
      intro m' hm h
      exact .header (hinner _ m' _ (by omega) h) fun _ left h => again hm h
    · next hc =>
      apply Scans.skip (TokenKind.plain_of_continuation hc) h
      intro m' hm h
      have hitem : Stay s t behind m' depth (inner .lowest) (inner' .lowest) :=
        fun k tokens hk => hinner .lowest k tokens (by omega)
      have hbelow' : Bounds behind m' b c := hbelow.mono (by omega)
      exact .header (scans_items hitem (by decide) hbelow' h) fun _ left h =>
        again hm h
    · next hc =>
      apply Scans.skip (TokenKind.plain_of_continuation hc) h
      intro m' hm h
      apply Scans.header (hinner _ m' _ (by omega) h)
      intro _ left h
      exact .header (scans_expect (by decide) h) fun _ left h =>
        again hm (h.mono (by omega))

end

theorem scans_exprWithin (power : Power) (hbounds : Bounds behind n b b')
    (h : Within behind n depth tokens) :
    Scans s t behind (Stays behind (n - 1) depth) (exprWithin b power) (exprWithin b' power) depth
      tokens := by
  induction b generalizing b' n power tokens with
  | zero =>
    obtain rfl := hbounds.zero h
    exact .unexpected h
  | succ b ih =>
    obtain ⟨c, rfl, hbelow⟩ := hbounds.succ h
    have hinner (power : Power) :
        Stay s t behind (n - 1) depth (exprWithin b power) (exprWithin c power) := by
      intro m tokens hm h
      exact (ih power (hbelow.mono hm) h).imp fun _ _ _ h => ⟨h.1, h.2.mono (by omega)⟩
    rw [exprWithin]
    apply Scans.header (scans_operand hinner hbelow (h.mono (by omega)))
    intro e left h
    exact scans_extend hinner (Nat.le_refl _) hbelow h

theorem scans_expr (h : Within behind n depth tokens) :
    Scans s t behind (Stays behind (n - 1) depth) expr expr depth tokens :=
  .bounded fun _ _ hbounds => (scans_exprWithin .lowest hbounds h.self).imp fun _ _ _ hstays =>
    ⟨hstays.1, hstays.2.mono (Nat.sub_le_sub_right h.length_le 1)⟩

/-! ### Names and types -/

theorem scans_identifier (h : Within behind n depth tokens) :
    Scans s t behind (Stays behind (n - 1) depth) identifier identifier depth tokens :=
  .header (scans_expect (by decide) h) fun _ _ h => .pure ⟨rfl, h⟩

theorem scans_typeSuffixes {element : TypeExpr} (hbounds : Bounds behind n b b')
    (h : Within behind n depth tokens) :
    Scans s t behind (Stays behind n depth) (typeSuffixes b element) (typeSuffixes b' element) depth
      tokens := by
  induction b generalizing b' n element tokens with
  | zero =>
    obtain rfl := hbounds.zero h
    exact .pure ⟨rfl, h⟩
  | succ b ih =>
    obtain ⟨c, rfl, hbelow⟩ := hbounds.succ h
    rw [typeSuffixes]
    apply Scans.kind h
    intro token hcons
    split
    · next hkind =>
      apply Scans.take hkind (by decide) hcons h
      intro m rest hm h
      obtain rfl : m = n - 1 := by omega
      apply Scans.header (scans_expect (by decide) h)
      intro _ left h
      exact (ih hbelow (h.mono (by omega))).imp fun _ _ _ h => ⟨h.1, h.2.mono (by omega)⟩
    · exact .unexpected h
    · exact .pure ⟨rfl, h⟩

theorem scans_typeExpr (h : Within behind n depth tokens) :
    Scans s t behind (Stays behind (n - 1) depth) typeExpr typeExpr depth tokens :=
  .header (scans_expect (by decide) h) fun _ _ h =>
    .bounded fun _ _ hbounds => (scans_typeSuffixes hbounds h.self).imp fun _ _ _ hstays =>
      ⟨hstays.1, hstays.2.mono h.length_le⟩

theorem scans_ascription? {introducer : TokenKind}
    (hplain : introducer.Plain ∧ introducer ≠ .endOfFile) (h : Within behind n depth tokens) :
    Scans s t behind (Stays behind n depth) (ascription? introducer) (ascription? introducer) depth
      tokens := by
  refine .kind h fun token hcons => .ite (fun hkind => ?_) fun _ => .pure ⟨rfl, h⟩
  apply Scans.take hkind hplain hcons h
  intro m rest hm h
  exact .header (scans_typeExpr h) fun _ _ h => .pure ⟨rfl, h.mono (by omega)⟩

theorem scans_parameter : Stay s t behind n depth parameter parameter := by
  intro m tokens _ h
  apply Scans.header (scans_identifier h)
  intro _ _ h
  apply Scans.header (scans_ascription? (by decide) h)
  intro _ _ h
  exact .pure ⟨rfl, h.mono (by omega)⟩

theorem scans_separated {item : Parser α} {separator : TokenKind}
    (hitem : Stay s t behind n depth item item)
    (hplain : separator.Plain ∧ separator ≠ .endOfFile) (hbounds : Bounds behind n b b')
    (h : Within behind n depth tokens) :
    Scans s t behind (Stays behind n depth) (separated item separator b)
      (separated item separator b') depth tokens := by
  induction b generalizing b' n tokens with
  | zero =>
    obtain rfl := hbounds.zero h
    exact .header (hitem n _ (Nat.le_refl n) h) fun _ _ h => .pure ⟨rfl, h⟩
  | succ b ih =>
    obtain ⟨c, rfl, hbelow⟩ := hbounds.succ h
    rw [separated]
    apply Scans.header (hitem n _ (Nat.le_refl n) h)
    intro a left h
    refine .kind h fun token hcons => .ite (fun hkind => ?_) fun _ => .pure ⟨rfl, h⟩
    apply Scans.take hkind hplain hcons h
    intro m rest hm h
    obtain rfl : m = n - 1 := by omega
    apply Scans.header (ih (fun k tokens hk => hitem k tokens (by omega)) hbelow h)
    intro _ _ h
    exact .pure ⟨rfl, h.mono (by omega)⟩

theorem scans_names {item : Parser α} {separator : TokenKind}
    (hitem : Stay s t behind n depth item item)
    (hplain : separator.Plain ∧ separator ≠ .endOfFile) (h : Within behind n depth tokens) :
    Scans s t behind (Stays behind n depth) (bounded (separated item separator))
      (bounded (separated item separator)) depth tokens := by
  have hitem' : Stay s t behind tokens.length depth item item := fun k tokens hk =>
    hitem k tokens (Nat.le_trans hk h.length_le)
  apply Scans.bounded
  intro b b' hbounds
  exact (scans_separated hitem' hplain hbounds h.self).imp fun _ _ _ hstays =>
    ⟨hstays.1, hstays.2.mono h.length_le⟩

theorem scans_result? (h : Within behind n depth tokens) :
    Scans s t behind (Stays behind n depth) result? result? depth tokens := by
  apply Scans.kind h
  intro token hcons
  apply Scans.ite (fun _ => .pure ⟨rfl, h⟩)
  intro _
  exact .header (scans_expr h) fun _ _ h => .pure ⟨rfl, h.mono (by omega)⟩

end Script.Parser

import Script.Proofs.Parse.Scans.Stmts
import Script.Proofs.Text.Lines

/-!
# What stands behind the end of the file

No parser reads on behind an end of the file, whatever stands there. This is said of two runs on the
same tokens: one with the end of the file behind them and nothing more, and one in front of a place
where that same end of the file is the current token. They come to the same result and leave as many
tokens, or they give up at the same token with the same error, whose message stands on one line.
Each has a bound of its own, the second one at least as large as the first; where the first one is
used up, no token is left.
-/

namespace Script.Parser

open Cursor

/-- The end of the file is the current token of a place. -/
structure AtEnd (stop : Token) (t : Cursor) : Prop where
  kind : stop.kind = .endOfFile
  kind' : t.stop.kind = .endOfFile
  current : t.current = stop

/-- The bounds are the same, or the smaller one is large enough for `n` tokens. -/
def Enough (n b b' : Nat) : Prop := b = b' ∨ n ≤ b ∧ b ≤ b'

/-- Two parsers, one in front of the end of the file and one in front of `t`, come to the same
result and leave the same tokens, fewer than `n`, or give up at the same one with a message of one
line. -/
def Agrees (stop : Token) (t : Cursor) (n : Nat) (p q : Parser α) (tokens : List Token) : Prop :=
  ∃ taken left, tokens = taken ++ left ∧
    ((∃ a, left.length < n ∧ p ⟨tokens, stop⟩ = .ok a ⟨left, stop⟩ ∧
      q (t.push tokens) = .ok a (t.push left)) ∨
    ∃ e : Error, e.StandsAt ⟨left, stop⟩ ∧ Unbroken e.message ∧
      p ⟨tokens, stop⟩ = .error e ⟨left, stop⟩ ∧ q (t.push tokens) = .error e (t.push left))

/-- At the end of the file the parser fails at once. -/
def Refuses (p : Parser α) : Prop :=
  ∀ s : Cursor, s.current.kind = .endOfFile → p s = unexpected s

variable {stop : Token} {t : Cursor} {n m b b' : Nat} {tokens rest : List Token} {token : Token}

theorem Enough.zero (h : Enough tokens.length 0 b) : b = 0 ∨ tokens = [] :=
  h.imp Eq.symm fun h => List.length_eq_zero_iff.1 (Nat.le_zero.1 h.1)

theorem Enough.succ (h : Enough n (b + 1) b') : ∃ c, b' = c + 1 ∧ Enough (n - 1) b c := by
  obtain rfl | ⟨hle, hle'⟩ := h
  · exact ⟨b, rfl, .inl rfl⟩
  · exact ⟨b' - 1, by omega, .inr (by omega)⟩

theorem Enough.mono (h : Enough n b b') (hle : m ≤ n) : Enough m b b' :=
  h.imp_right fun h => ⟨Nat.le_trans hle h.1, h.2⟩

theorem kind_at_end (f : TokenKind → Parser α) {s : Cursor} (hs : s.current.kind = .endOfFile) :
    (kind >>= f) s = f .endOfFile s :=
  congrArg (f · s) hs

namespace Refuses

theorem bind {p : Parser α} (hp : Refuses p) (f : α → Parser β) : Refuses (p >>= f) := by
  intro s hs
  simp only [Bind.bind, EStateM.bind, hp s hs]
  rfl

theorem expect {kind : TokenKind} (hkind : kind ≠ .endOfFile) : Refuses (expect kind) := by
  intro s hs
  have hne : s.current.kind ≠ kind := hs ▸ hkind.symm
  exact congrFun (if_neg hne) s

theorem items {item : Parser α} (hitem : Refuses item) {close : TokenKind}
    (hclose : close ≠ .endOfFile) (message : String) (bound : Nat) :
    Refuses (items item close message bound) := by
  cases bound with
  | zero => exact fun s _ => rfl
  | succ bound =>
    intro s hs
    have hne : s.current.kind ≠ close := hs ▸ hclose.symm
    rw [Parser.items]
    exact (congrFun (if_neg hne) s).trans (hitem.bind _ s hs)

/-- What begins with a look at the current token. -/
theorem look {f : Token → Parser α}
    (h : ∀ s : Cursor, s.current.kind = .endOfFile → f s.current s = unexpected s) :
    Refuses (current >>= f) :=
  h

theorem look_kind {f : TokenKind → Parser α}
    (h : ∀ s : Cursor, s.current.kind = .endOfFile → f .endOfFile s = unexpected s) :
    Refuses (kind >>= f) :=
  fun s hs => (kind_at_end f hs).trans (h s hs)

theorem operand (inner : ExprReader) (bound : Nat) : Refuses (operand inner bound) := by
  refine look fun s hs => ?_
  rw [hs]
  rfl

theorem exprWithin (power : Power) (bound : Nat) : Refuses (exprWithin bound power) := by
  cases bound with
  | zero => exact fun s _ => rfl
  | succ bound => exact (operand _ bound).bind _

theorem expr : Refuses expr :=
  fun s => exprWithin .lowest s.rest.length s

theorem identifier : Refuses identifier :=
  (expect (by decide)).bind _

theorem parameter : Refuses parameter :=
  identifier.bind _

theorem stmtWithin (bound : Nat) : Refuses (stmtWithin bound) := by
  cases bound with
  | zero => exact fun s _ => rfl
  | succ bound =>
    rw [Parser.stmtWithin]
    refine look_kind fun s hs => ?_
    have hstarts : startsReassignment s = .ok false s := by
      rw [startsReassignment_eq, hs]
      rfl
    have hexpression : expression s = unexpected s := expr.bind _ s hs
    simp only [Bind.bind, EStateM.bind, hstarts]
    exact hexpression

end Refuses

namespace Agrees

theorem pure {a : α} (h : tokens.length < n) :
    Agrees stop t n (Pure.pure a) (Pure.pure a) tokens :=
  ⟨[], tokens, rfl, .inl ⟨a, h, rfl, rfl⟩⟩

theorem bind {p q : Parser α} {f g : α → Parser β} (hp : Agrees stop t m p q tokens)
    (hf : ∀ a left, left.length < m → Agrees stop t n (f a) (g a) left) :
    Agrees stop t n (p >>= f) (q >>= g) tokens := by
  obtain ⟨taken, left, rfl, ⟨a, hleft, hp, hq⟩ | ⟨e, hstands, hline, hp, hq⟩⟩ := hp
  · obtain ⟨taken', left', rfl, hresult⟩ := hf a left hleft
    refine ⟨taken ++ taken', left', (List.append_assoc ..).symm, ?_⟩
    simpa only [Bind.bind, EStateM.bind, hp, hq] using hresult
  · refine ⟨taken, left, rfl, .inr ⟨e, hstands, hline, ?_, ?_⟩⟩
    · simp only [Bind.bind, EStateM.bind, hp]
    · simp only [Bind.bind, EStateM.bind, hq]

theorem mono {p q : Parser α} (h : Agrees stop t m p q tokens) (hle : m ≤ n) :
    Agrees stop t n p q tokens := by
  obtain ⟨taken, left, htokens, ⟨a, hleft, hresult⟩ | herror⟩ := h
  · exact ⟨taken, left, htokens, .inl ⟨a, Nat.lt_of_lt_of_le hleft hle, hresult⟩⟩
  · exact ⟨taken, left, htokens, .inr herror⟩

theorem ite {c : Prop} [Decidable c] {p p' q q' : Parser α} (hp : c → Agrees stop t n p q tokens)
    (hp' : ¬c → Agrees stop t n p' q' tokens) :
    Agrees stop t n (if c then p else p') (if c then q else q') tokens := by
  split
  · exact hp ‹_›
  · exact hp' ‹_›

/-- What agrees with one parser is the same. -/
theorem unique {p q q' : Parser α} (h : Agrees stop t n p q tokens)
    (h' : Agrees stop t m p q' tokens) : q (t.push tokens) = q' (t.push tokens) := by
  obtain ⟨taken, left, -, ⟨a, -, hp, hq⟩ | ⟨e, -, -, hp, hq⟩⟩ := h
  all_goals
    obtain ⟨taken', left', -, ⟨a', -, hp', hq'⟩ | ⟨e', -, -, hp', hq'⟩⟩ := h'
    all_goals
      cases hp.symm.trans hp'
      try exact hq.trans hq'.symm

section

variable (hend : AtEnd stop t)

include hend

theorem current_push (tokens : List Token) :
    (t.push tokens).current = Cursor.current ⟨tokens, stop⟩ := by
  cases tokens with
  | nil => exact hend.current
  | cons token rest => rfl

theorem current {f g : Token → Parser α}
    (hf : ∀ token, (token.kind ≠ .endOfFile → ∃ rest, tokens = token :: rest) →
      Agrees stop t n (f token) (g token) tokens) :
    Agrees stop t n (Parser.current >>= f) (Parser.current >>= g) tokens := by
  have hcons (hkind : (Cursor.current ⟨tokens, stop⟩).kind ≠ .endOfFile) :
      ∃ rest, tokens = Cursor.current ⟨tokens, stop⟩ :: rest := by
    cases tokens with
    | nil => exact absurd hend.kind hkind
    | cons token rest => exact ⟨rest, rfl⟩
  have hresult := hf _ hcons
  have hq : (Parser.current >>= g) (t.push tokens) =
      g (Cursor.current ⟨tokens, stop⟩) (t.push tokens) :=
    congrArg (g · (t.push tokens)) (current_push hend tokens)
  unfold Agrees
  rw [hq]
  exact hresult

theorem kind {f g : TokenKind → Parser α}
    (hf : ∀ token, (token.kind ≠ .endOfFile → ∃ rest, tokens = token :: rest) →
      Agrees stop t n (f token.kind) (g token.kind) tokens) :
    Agrees stop t n (Parser.kind >>= f) (Parser.kind >>= g) tokens :=
  current hend hf

theorem position {f g : Position → Parser α}
    (hf : ∀ p, Agrees stop t n (f p) (g p) tokens) :
    Agrees stop t n (Parser.position >>= f) (Parser.position >>= g) tokens :=
  current hend fun token _ => hf token.span.start

theorem failWith {cause : Token → Cause} (hcause : ∀ token, (cause token).kind = .syntaxError)
    (hline : ∀ token, Unbroken (cause token).raw) :
    Agrees stop t n (Parser.failWith cause : Parser α) (Parser.failWith cause) tokens := by
  refine ⟨[], tokens, rfl, .inr ⟨_, ⟨_, hcause _, rfl⟩, ?_, rfl, ?_⟩⟩
  · exact (Cause.unbroken_message _).2 (hline _)
  · rw [← current_push hend tokens]
    rfl

theorem unexpected : Agrees stop t n (Parser.unexpected : Parser α) Parser.unexpected tokens :=
  failWith hend (fun _ => rfl) fun _ => unbroken_empty

theorem unexpectedBecause {message : String} (hmessage : Unbroken message) :
    Agrees stop t n (Parser.unexpectedBecause message : Parser α)
      (Parser.unexpectedBecause message) tokens :=
  failWith hend (fun _ => rfl) fun _ => hmessage

theorem of_stays {p q : Parser α} {a : α}
    (hp : ∀ s : Cursor, s.current.kind = .endOfFile → p s = .ok a s)
    (hq : ∀ s : Cursor, s.current.kind = .endOfFile → q s = .ok a s) :
    Agrees stop t (n + 1) p q [] :=
  ⟨[], [], rfl, .inl ⟨a, Nat.succ_pos n, hp _ hend.kind, hq _ (hend.current ▸ hend.kind)⟩⟩

theorem of_refuses {p q : Parser α} (hp : Refuses p) (hq : Refuses q) :
    Agrees stop t n p q [] := by
  unfold Agrees
  rw [hp ⟨[], stop⟩ hend.kind, hq (t.push []) (hend.current ▸ hend.kind)]
  exact unexpected hend

end

theorem advance {f g : Token → Parser α} (h : Agrees stop t n (f token) (g token) rest) :
    Agrees stop t n (Parser.advance >>= f) (Parser.advance >>= g) (token :: rest) := by
  obtain ⟨taken, left, rfl, hresult⟩ := h
  exact ⟨token :: taken, left, rfl, hresult⟩

theorem skip {p q : Parser α} (h : Agrees stop t n p q rest) :
    Agrees stop t n (do Parser.skip; p) (do Parser.skip; q) (token :: rest) := by
  obtain ⟨taken, left, rfl, hresult⟩ := h
  exact ⟨token :: taken, left, rfl, hresult⟩

theorem took (h : rest.length < n) :
    Agrees stop t n Parser.advance Parser.advance (token :: rest) :=
  ⟨[token], rest, rfl, .inl ⟨token, h, rfl, rfl⟩⟩

/-- Leaving behind a token that has just been looked at. -/
theorem take {kind : TokenKind} {p q : Parser α} (hkind : token.kind = kind)
    (hne : kind ≠ .endOfFile) (hcons : token.kind ≠ .endOfFile → ∃ rest, tokens = token :: rest)
    (hp : ∀ rest, tokens.length = rest.length + 1 → Agrees stop t n p q rest) :
    Agrees stop t n (do Parser.skip; p) (do Parser.skip; q) tokens := by
  obtain ⟨rest, rfl⟩ := hcons (hkind ▸ hne)
  exact skip (hp rest rfl)

end Agrees

theorem Agrees.bounded {p q : Nat → Parser α}
    (h : ∀ b b', Enough tokens.length b b' → Agrees stop t n (p b) (q b') tokens) :
    Agrees stop t n (Parser.bounded p) (Parser.bounded q) tokens := by
  have henough : Enough tokens.length tokens.length (t.push tokens).rest.length := by
    refine .inr ⟨Nat.le_refl _, ?_⟩
    simp [push]
  exact h _ _ henough

section

variable (hend : AtEnd stop t)

include hend

theorem agrees_expect {kind : TokenKind} (hkind : kind ≠ .endOfFile) :
    Agrees stop t tokens.length (expect kind) (expect kind) tokens := by
  refine .current hend fun token hcons => .ite (fun heq => ?_) fun _ => .unexpected hend
  obtain ⟨rest, rfl⟩ := hcons (heq ▸ hkind)
  exact .took (Nat.lt_succ_self _)

theorem agrees_expectBecause {kind : TokenKind} {message : String} (hmessage : Unbroken message)
    (hkind : kind ≠ .endOfFile) :
    Agrees stop t tokens.length (expectBecause kind message) (expectBecause kind message)
      tokens := by
  refine .current hend fun token hcons => .ite (fun heq => ?_) fun _ =>
    .unexpectedBecause hend hmessage
  obtain ⟨rest, rfl⟩ := hcons (heq ▸ hkind)
  exact .took (Nat.lt_succ_self _)

/-! ### Expressions -/

omit hend in
theorem extend_at_end (inner : ExprReader) (power : Power) (bound : Nat) (e : Expr) (s : Cursor)
    (hs : s.current.kind = .endOfFile) : extend inner power bound e s = .ok e s := by
  cases bound with
  | zero => rfl
  | succ bound =>
    have hle : Power.ofKind s.current.kind ≤ power := by
      rw [hs]
      exact Nat.zero_le _
    rw [extend]
    exact congrFun (if_pos hle) s

theorem agrees_items {item item' : Parser α} {close : TokenKind} (hclose : close ≠ .endOfFile)
    {message : String} (hmessage : Unbroken message)
    (hitem : ∀ tokens, tokens.length ≤ n → Agrees stop t tokens.length item item' tokens)
    (hrefuses : Refuses item) (hrefuses' : Refuses item') (hn : tokens.length ≤ n)
    (hbounds : Enough tokens.length b b') :
    Agrees stop t tokens.length (items item close message b) (items item' close message b')
      tokens := by
  induction b generalizing b' tokens with
  | zero =>
    obtain rfl | rfl := hbounds.zero
    · exact .unexpected hend
    · exact .of_refuses hend (hrefuses.items hclose _ _) (hrefuses'.items hclose _ _)
  | succ b ih =>
    obtain ⟨c, rfl, hbelow⟩ := hbounds.succ
    rw [items, items]
    refine .current hend fun token hcons => .ite (fun hkind => ?_) fun _ => ?_
    · exact .take hkind hclose hcons fun rest hrest => .pure (by omega)
    · refine .bind (hitem _ hn) fun a left hleft => ?_
      refine .current hend fun next hcons => .ite (fun hkind => ?_) fun _ =>
        .ite (fun hkind => ?_) fun _ => .unexpectedBecause hend hmessage
      · refine .take hkind (by decide) hcons fun rest hrest => ?_
        refine .bind (ih (by omega) (hbelow.mono (by omega))) fun _ left' hleft' => .pure (by omega)
      · exact .take hkind hclose hcons fun rest hrest => .pure (by omega)

section

variable {inner inner' : ExprReader}
  (hinner : ∀ power tokens, tokens.length ≤ n →
    Agrees stop t tokens.length (inner power) (inner' power) tokens)
  (hrefuses : ∀ power, Refuses (inner power)) (hrefuses' : ∀ power, Refuses (inner' power))

include hinner hrefuses hrefuses'

theorem agrees_operand (hn : tokens.length ≤ n + 1) (hbounds : Enough (tokens.length - 1) b b') :
    Agrees stop t tokens.length (operand inner b) (operand inner' b') tokens := by
  have constant {token : Token} {kind : TokenKind} {e : Expr} (hkind : token.kind = kind)
      (hne : kind ≠ .endOfFile)
      (hcons : token.kind ≠ .endOfFile → ∃ rest, tokens = token :: rest) :
      Agrees stop t tokens.length (do skip; return e) (do skip; return e) tokens :=
    .take hkind hne hcons fun rest hrest => .pure (by omega)
  rw [operand, operand]
  refine .current hend fun token hcons => ?_
  split
  · next hkind =>
    split
    · exact constant hkind (by decide) hcons
    · exact .failWith hend (fun _ => rfl) fun _ => unbroken_empty
  · next hkind => exact constant hkind (by decide) hcons
  · next hkind => exact constant hkind (by decide) hcons
  · next hkind => exact constant hkind (by decide) hcons
  · next hkind => exact constant hkind (by decide) hcons
  · next hkind =>
    refine .take hkind (by decide) hcons fun rest hrest => ?_
    refine .bind (hinner _ _ (by omega)) fun _ left hleft => ?_
    exact .bind (agrees_expect hend (by decide)) fun _ left' hleft' => .pure (by omega)
  · next hkind =>
    refine .take hkind (by decide) hcons fun rest hrest => ?_
    refine .bind (agrees_items hend (by decide) (by decide) (hinner _) (hrefuses _) (hrefuses' _)
      (by omega) (hbounds.mono (by omega))) fun _ left hleft => .pure (by omega)
  · split
    · next op hop =>
      refine .take rfl (TokenKind.plain_of_unary hop).2 hcons fun rest hrest => ?_
      exact .bind (hinner _ _ (by omega)) fun _ left hleft => .pure (by omega)
    · exact .unexpected hend

theorem agrees_extend {power : Power} {e : Expr} (hn : tokens.length ≤ n)
    (hbounds : Enough tokens.length b b') :
    Agrees stop t (tokens.length + 1) (extend inner power b e) (extend inner' power b' e)
      tokens := by
  induction b generalizing b' tokens e with
  | zero =>
    obtain rfl | rfl := hbounds.zero
    · exact .pure (Nat.lt_succ_self _)
    · exact .of_stays hend (extend_at_end inner power 0 e) (extend_at_end inner' power b' e)
  | succ b ih =>
    obtain ⟨c, rfl, hbelow⟩ := hbounds.succ
    have again {e : Expr} {left : List Token} (hleft : left.length < tokens.length) :
        Agrees stop t (tokens.length + 1) (extend inner power b e) (extend inner' power c e) left :=
      (ih (by omega) (hbelow.mono (by omega))).mono (by omega)
    rw [extend, extend]
    refine .current hend fun token hcons => .ite (fun _ => .pure (Nat.lt_succ_self _)) fun hgt => ?_
    have hne : token.kind ≠ .endOfFile := fun heq => by
      rw [heq] at hgt
      exact hgt (Nat.zero_le _)
    obtain ⟨rest, rfl⟩ := hcons hne
    rw [List.length_cons] at hn
    split
    · exact .unexpected hend
    · exact .skip (.bind (hinner _ _ (by omega)) fun _ left hleft => again (Nat.lt_succ_of_lt hleft))
    · refine .skip (.bind (agrees_items hend (by decide) (by decide) (hinner _) (hrefuses _)
        (hrefuses' _) (by omega) hbelow) fun _ left hleft => ?_)
      exact again (Nat.lt_succ_of_lt hleft)
    · refine .skip (.bind (hinner _ _ (by omega)) fun _ left hleft => ?_)
      refine .bind (agrees_expect hend (by decide)) fun _ left' hleft' => ?_
      exact again (Nat.lt_succ_of_lt (Nat.lt_trans hleft' hleft))

end

theorem agrees_exprWithin (power : Power) (hbounds : Enough tokens.length b b') :
    Agrees stop t tokens.length (exprWithin b power) (exprWithin b' power) tokens := by
  induction b generalizing b' power tokens with
  | zero =>
    obtain rfl | rfl := hbounds.zero
    · exact .unexpected hend
    · exact .of_refuses hend (.exprWithin power 0) (.exprWithin power b')
  | succ b ih =>
    obtain ⟨c, rfl, hbelow⟩ := hbounds.succ
    have hinner (power : Power) (more : List Token) (hmore : more.length ≤ tokens.length - 1) :
        Agrees stop t more.length (exprWithin b power) (exprWithin c power) more := by
      exact ih power (hbelow.mono hmore)
    rw [exprWithin, exprWithin]
    refine .bind (agrees_operand hend hinner (.exprWithin · b) (.exprWithin · c) (by omega) hbelow)
      fun e left hleft => ?_
    exact (agrees_extend hend hinner (.exprWithin · b) (.exprWithin · c) (by omega)
      (hbelow.mono (by omega))).mono (by omega)

theorem agrees_expr : Agrees stop t tokens.length expr expr tokens :=
  .bounded fun _ _ hbounds => agrees_exprWithin hend .lowest hbounds

/-! ### Names and types -/

theorem agrees_identifier : Agrees stop t tokens.length identifier identifier tokens :=
  .bind (agrees_expect hend (by decide)) fun _ _ hleft => .pure hleft

/-- One part of a module's path. -/
theorem agrees_segment : Agrees stop t tokens.length (do return (← expect .identifier).text)
    (do return (← expect .identifier).text) tokens :=
  .bind (agrees_expect hend (by decide)) fun _ _ hleft => .pure hleft

omit hend in
theorem typeSuffixes_at_end (bound : Nat) (element : TypeExpr) (s : Cursor)
    (hs : s.current.kind = .endOfFile) : typeSuffixes bound element s = .ok element s := by
  cases bound with
  | zero => rfl
  | succ bound =>
    rw [typeSuffixes, kind_at_end _ hs]
    rfl

theorem agrees_typeSuffixes {element : TypeExpr} (hbounds : Enough tokens.length b b') :
    Agrees stop t (tokens.length + 1) (typeSuffixes b element) (typeSuffixes b' element)
      tokens := by
  induction b generalizing b' element tokens with
  | zero =>
    obtain rfl | rfl := hbounds.zero
    · exact .pure (Nat.lt_succ_self _)
    · exact .of_stays hend (typeSuffixes_at_end 0 element) (typeSuffixes_at_end b' element)
  | succ b ih =>
    obtain ⟨c, rfl, hbelow⟩ := hbounds.succ
    rw [typeSuffixes, typeSuffixes]
    refine .kind hend fun token hcons => ?_
    split
    · next hkind =>
      refine .take hkind (by decide) hcons fun rest hrest => ?_
      refine .bind (agrees_expect hend (by decide)) fun _ left hleft => ?_
      exact (ih (hbelow.mono (by omega))).mono (by omega)
    · exact .unexpected hend
    · exact .pure (Nat.lt_succ_self _)

theorem agrees_typeExpr : Agrees stop t tokens.length typeExpr typeExpr tokens :=
  .bind (agrees_expect hend (by decide)) fun _ _ hleft =>
    .bounded fun _ _ hbounds => (agrees_typeSuffixes hend hbounds).mono hleft

theorem agrees_ascription? {introducer : TokenKind} (hintroducer : introducer ≠ .endOfFile) :
    Agrees stop t (tokens.length + 1) (ascription? introducer) (ascription? introducer) tokens := by
  refine .kind hend fun token hcons => .ite (fun hkind => ?_) fun _ =>
    .pure (Nat.lt_succ_self _)
  refine .take hkind hintroducer hcons fun rest hrest => ?_
  exact .bind (agrees_typeExpr hend) fun _ _ hleft => .pure (by omega)

theorem agrees_parameter : Agrees stop t tokens.length parameter parameter tokens :=
  .bind (agrees_identifier hend) fun _ _ hleft =>
    .bind (agrees_ascription? hend (by decide)) fun _ _ hleft' => .pure (by omega)

theorem agrees_separated {item : Parser α} {separator : TokenKind} (hne : separator ≠ .endOfFile)
    (hitem : ∀ tokens, Agrees stop t tokens.length item item tokens)
    (hbounds : Enough tokens.length b b') :
    Agrees stop t tokens.length (separated item separator b) (separated item separator b')
      tokens := by
  induction b generalizing b' tokens with
  | zero =>
    obtain rfl | rfl := hbounds.zero
    · exact .bind (hitem tokens) fun _ _ hleft => .pure hleft
    · cases b' with
      | zero => exact .bind (hitem []) fun _ _ hleft => .pure hleft
      | succ b' => exact .bind (hitem []) fun _ left hleft => absurd hleft (Nat.not_lt_zero _)
  | succ b ih =>
    obtain ⟨c, rfl, hbelow⟩ := hbounds.succ
    rw [separated, separated]
    refine .bind (hitem tokens) fun a left hleft => ?_
    refine .kind hend fun token hcons => .ite (fun hkind => ?_) fun _ => .pure hleft
    refine .take hkind hne hcons fun rest hrest => ?_
    exact .bind (ih (hbelow.mono (by omega))) fun _ _ hleft' => .pure (by omega)

theorem agrees_result? : Agrees stop t (tokens.length + 1) result? result? tokens :=
  .kind hend fun _ _ => .ite (fun _ => .pure (Nat.lt_succ_self _)) fun _ =>
    .bind (agrees_expr hend) fun _ _ hleft => .pure (Nat.lt_succ_of_lt hleft)

/-! ### Statements that end with a semicolon -/

theorem agrees_closing {f : Token → α} (h : tokens.length ≤ n) :
    Agrees stop t n (do return f (← expect .semicolon)) (do return f (← expect .semicolon))
      tokens :=
  .bind (agrees_expect hend (by decide)) fun _ _ hleft => .pure (by omega)

theorem agrees_declaration (start : Position) (global : Bool) :
    Agrees stop t (rest.length + 1) (declaration start global) (declaration start global)
      (token :: rest) := by
  refine .advance ?_
  refine .bind (agrees_expectBecause hend (by decide) (by decide)) fun _ _ hleft => ?_
  refine .bind (agrees_ascription? hend (by decide)) fun _ _ hleft => ?_
  refine .bind (agrees_expectBecause hend (by decide) (by decide)) fun _ _ hleft => ?_
  refine .bind (agrees_expr hend) fun _ _ hleft => ?_
  exact agrees_closing hend (by omega)

theorem agrees_globalDeclaration :
    Agrees stop t (rest.length + 1) globalDeclaration globalDeclaration (token :: rest) := by
  refine .advance ?_
  refine .kind hend fun word hcons => ?_
  split
  · next hkind =>
    obtain ⟨rest, rfl⟩ := hcons (by rw [hkind]; decide)
    exact (agrees_declaration hend _ _).mono (Nat.le_succ _)
  · next hkind =>
    obtain ⟨rest, rfl⟩ := hcons (by rw [hkind]; decide)
    exact (agrees_declaration hend _ _).mono (Nat.le_succ _)
  · exact .unexpectedBecause hend (by decide)

theorem agrees_importNames :
    Agrees stop t (rest.length + 1) importNames importNames (token :: rest) := by
  refine .advance ?_
  refine .bind (.bounded fun _ _ => agrees_separated hend (by decide) fun _ =>
    agrees_identifier hend) fun _ _ hleft => ?_
  refine .bind (agrees_expectBecause hend (by decide) (by decide)) fun _ _ hleft => ?_
  refine .bind (.bounded fun _ _ => agrees_separated hend (by decide) fun _ =>
    agrees_segment hend) fun _ _ hleft => ?_
  exact agrees_closing hend (by omega)

theorem agrees_returnValue :
    Agrees stop t (rest.length + 1) returnValue returnValue (token :: rest) := by
  refine .advance ?_
  refine .bind (agrees_result? hend) fun _ _ hleft => ?_
  exact agrees_closing hend (by omega)

theorem agrees_expression : Agrees stop t tokens.length expression expression tokens :=
  .bind (agrees_expr hend) fun _ _ hleft => agrees_closing hend (by omega)

theorem agrees_reassignment {operator : Token} :
    Agrees stop t (rest.length + 2) reassignment reassignment (token :: operator :: rest) := by
  refine .advance (.advance ?_)
  refine .bind (agrees_expr hend) fun _ _ hleft => ?_
  exact agrees_closing hend (by omega)

/-! ### Statements that end with a block -/

omit hend in
theorem blockStatements_at_end (stmt : Parser Stmt) (bound : Nat) (s : Cursor)
    (hs : s.current.kind = .endOfFile) :
    blockStatements stmt bound s = unexpectedBecause "unterminated block" s := by
  cases bound with
  | zero => rfl
  | succ bound =>
    rw [blockStatements]
    simp only [Bind.bind, EStateM.bind, Parser.current, hs]

section

variable {stmt stmt' : Parser Stmt}
  (hstmt : ∀ tokens, tokens.length ≤ n → Agrees stop t tokens.length stmt stmt' tokens)

include hstmt

theorem agrees_blockStatements (hn : tokens.length ≤ n) (hbounds : Enough tokens.length b b') :
    Agrees stop t tokens.length (blockStatements stmt b) (blockStatements stmt' b') tokens := by
  induction b generalizing b' tokens with
  | zero =>
    obtain rfl | rfl := hbounds.zero
    · exact .unexpectedBecause hend (by decide)
    · unfold Agrees
      rw [blockStatements_at_end stmt' b' (t.push []) (hend.current ▸ hend.kind)]
      exact Agrees.unexpectedBecause hend (by decide)
  | succ b ih =>
    obtain ⟨c, rfl, hbelow⟩ := hbounds.succ
    rw [blockStatements, blockStatements]
    refine .current hend fun token hcons => ?_
    split
    · next hkind => exact .take hkind (by decide) hcons fun rest hrest => .pure (by omega)
    · exact .unexpectedBecause hend (by decide)
    · refine .bind (hstmt _ hn) fun first left hleft => ?_
      exact .bind (ih (by omega) (hbelow.mono (by omega))) fun _ _ hleft' => .pure (by omega)

theorem agrees_block (hn : tokens.length ≤ n) (hbounds : Enough (tokens.length - 1) b b') :
    Agrees stop t tokens.length (block stmt b) (block stmt' b') tokens := by
  refine .bind (agrees_expectBecause hend (by decide) (by decide)) fun _ left hleft => ?_
  refine .bind (agrees_blockStatements hend hstmt (by omega) (hbounds.mono (by omega))) ?_
  exact fun _ _ hleft' => .pure (by omega)

theorem agrees_conditional (hn : rest.length ≤ n) (hbounds : Enough (rest.length + 1) b b') :
    Agrees stop t (rest.length + 1) (conditional stmt b) (conditional stmt' b')
      (token :: rest) := by
  induction b generalizing b' token rest with
  | zero =>
    have hbound : b' = 0 ∨ token :: rest = [] := Enough.zero hbounds
    obtain rfl := hbound.resolve_right (List.cons_ne_nil token rest)
    exact .unexpected hend
  | succ b ih =>
    obtain ⟨c, rfl, hbelow⟩ := hbounds.succ
    refine .advance ?_
    refine .bind (agrees_expr hend) fun condition left hleft => ?_
    refine .bind (agrees_block hend hstmt (by omega) (hbelow.mono (by omega))) fun body left' _ => ?_
    refine .kind hend fun word hcons => .ite (fun helse => ?_) fun _ => .pure (by omega)
    refine .take helse (by decide) hcons fun more hmore => ?_
    refine .kind hend fun word hcons => .ite (fun hif => ?_) fun _ => ?_
    · obtain ⟨more, rfl⟩ := hcons (by rw [hif]; decide)
      rw [List.length_cons] at hmore
      exact .bind (ih (by omega) (hbelow.mono (by omega))) fun _ _ _ => .pure (by omega)
    · exact .bind (agrees_block hend hstmt (by omega) (hbelow.mono (by omega))) fun _ _ _ =>
        .pure (by omega)

theorem agrees_loop (hn : rest.length ≤ n) (hbounds : Enough rest.length b b') :
    Agrees stop t (rest.length + 1) (loop stmt b) (loop stmt' b') (token :: rest) := by
  refine .advance ?_
  refine .bind (agrees_expr hend) fun condition left hleft => ?_
  exact .bind (agrees_block hend hstmt (by omega) (hbounds.mono (by omega))) fun _ _ _ =>
    .pure (by omega)

theorem agrees_function (hn : rest.length ≤ n) (hbounds : Enough rest.length b b') :
    Agrees stop t (rest.length + 1) (function stmt b) (function stmt' b') (token :: rest) := by
  refine .advance ?_
  refine .bind (agrees_identifier hend) fun name left hleft => ?_
  refine .bind (agrees_expect hend (by decide)) fun _ left hleft => ?_
  refine .bind (agrees_items hend (by decide) (by decide) (fun tokens _ => agrees_parameter hend)
    .parameter .parameter (Nat.le_refl _) (hbounds.mono (by omega))) fun parameters left hleft => ?_
  refine .bind (agrees_ascription? hend (by decide)) fun returns left hleft => ?_
  exact .bind (agrees_block hend hstmt (by omega) (hbounds.mono (by omega))) fun _ _ _ =>
    .pure (by omega)

end

/-! ### All statements -/

/-- The look at the first two tokens. -/
theorem startsReassignment_push (tokens : List Token) :
    ∃ starts, startsReassignment ⟨tokens, stop⟩ = .ok starts ⟨tokens, stop⟩ ∧
      startsReassignment (t.push tokens) = .ok starts (t.push tokens) ∧
      (starts = true → ∃ token operator rest, tokens = token :: operator :: rest) := by
  match tokens with
  | [] =>
    have hname : ¬stop.kind = .identifier := by
      rw [hend.kind]
      decide
    have hfalse (s : Cursor) (hs : s.current = stop) : startsReassignment s = .ok false s := by
      rw [startsReassignment_eq, hs, decide_eq_false fun h => hname h.1]
    exact ⟨false, hfalse _ rfl, hfalse _ hend.current, nofun⟩
  | [token] =>
    have hfalse (s : Cursor) (hs : s.nextKind = .endOfFile) :
        startsReassignment s = .ok false s := by
      have hassigns : ¬TokenKind.Assigns .endOfFile := by
        decide
      rw [startsReassignment_eq, hs, decide_eq_false fun h => hassigns h.2]
    have hnext : (t.push [token]).nextKind = .endOfFile := by
      rw [← kind_current_advance (s := t.push [token]) hend.kind']
      exact hend.current ▸ hend.kind
    exact ⟨false, hfalse _ rfl, hfalse _ hnext, nofun⟩
  | token :: operator :: rest =>
    exact ⟨_, startsReassignment_eq _, startsReassignment_eq _, fun _ => ⟨_, _, _, rfl⟩⟩

theorem agrees_startsReassignment {f g : Bool → Parser α}
    (htrue : ∀ token operator rest, tokens = token :: operator :: rest →
      Agrees stop t n (f true) (g true) tokens)
    (hfalse : Agrees stop t n (f false) (g false) tokens) :
    Agrees stop t n (startsReassignment >>= f) (startsReassignment >>= g) tokens := by
  obtain ⟨starts, hp, hq, hcons⟩ := startsReassignment_push hend tokens
  have hresult : Agrees stop t n (f starts) (g starts) tokens := by
    cases starts with
    | false => exact hfalse
    | true =>
      obtain ⟨token, operator, rest, htokens⟩ := hcons rfl
      exact htrue token operator rest htokens
  unfold Agrees
  simp only [Bind.bind, EStateM.bind, hp, hq]
  exact hresult

theorem agrees_stmtWithin (hbounds : Enough tokens.length b b') :
    Agrees stop t tokens.length (stmtWithin b) (stmtWithin b') tokens := by
  induction b generalizing b' tokens with
  | zero =>
    obtain rfl | rfl := hbounds.zero
    · exact .unexpected hend
    · exact .of_refuses hend (.stmtWithin 0) (.stmtWithin b')
  | succ b ih =>
    obtain ⟨c, rfl, hbelow⟩ := hbounds.succ
    have hstmt (more : List Token) (hmore : more.length ≤ tokens.length - 1) :
        Agrees stop t more.length (stmtWithin b) (stmtWithin c) more :=
      ih (hbelow.mono hmore)
    rw [stmtWithin, stmtWithin]
    refine .kind hend fun token hcons => ?_
    split
    · next hkind =>
      obtain ⟨rest, rfl⟩ := hcons (by rw [hkind]; decide)
      exact .position hend fun _ => agrees_declaration hend _ _
    · next hkind =>
      obtain ⟨rest, rfl⟩ := hcons (by rw [hkind]; decide)
      exact .position hend fun _ => agrees_declaration hend _ _
    · next hkind =>
      obtain ⟨rest, rfl⟩ := hcons (by rw [hkind]; decide)
      exact agrees_globalDeclaration hend
    · next hkind =>
      obtain ⟨rest, rfl⟩ := hcons (by rw [hkind]; decide)
      exact agrees_importNames hend
    · next hkind =>
      obtain ⟨rest, rfl⟩ := hcons (by rw [hkind]; decide)
      exact .bind (agrees_conditional hend hstmt (by simp) hbounds) fun _ _ hleft => .pure hleft
    · next hkind =>
      obtain ⟨rest, rfl⟩ := hcons (by rw [hkind]; decide)
      exact agrees_loop hend hstmt (by simp) hbelow
    · next hkind =>
      obtain ⟨rest, rfl⟩ := hcons (by rw [hkind]; decide)
      exact agrees_function hend hstmt (by simp) hbelow
    · next hkind =>
      obtain ⟨rest, rfl⟩ := hcons (by rw [hkind]; decide)
      exact agrees_returnValue hend
    · refine agrees_startsReassignment hend ?_ (agrees_expression hend)
      rintro token operator rest rfl
      exact agrees_reassignment hend

theorem agrees_stmt : Agrees stop t tokens.length stmt stmt tokens :=
  .bounded fun _ _ => agrees_stmtWithin hend

end

end Script.Parser

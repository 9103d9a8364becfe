import Script.Proofs.Parse.Extent

/-!
# Reading inside of a statement

However far a parser comes inside of a statement, the end of the statement looks the same from there
as from its start, if the braces opened on the way are counted. So recovery finds one and the same
token from wherever the statement was given up. And as long as that end is ahead nothing behind it
is looked at. Both are said of two runs at once, on the same tokens in front of two places. Tokens
that no end follows are read in front of one place alone, the end of the file.
-/

namespace Script

/-- A syntax error at the current token. -/
def Error.StandsAt (e : Error) (s : Cursor) : Prop :=
  ∃ cause : Cause, cause.kind = .syntaxError ∧ e = .located cause s.current.span.start

namespace Cursor

/-- The same place with more tokens in front. -/
def push (s : Cursor) (tokens : List Token) : Cursor :=
  { s with rest := tokens ++ s.rest }

theorem current_of_empty {s : Cursor} (h : s.rest = []) : s.current = s.stop := by
  rw [current, h]
  rfl

theorem stop_advance (s : Cursor) : s.advance.stop = s.stop := by
  unfold advance
  split <;> rfl

theorem kind_current_advance {s : Cursor} (h : s.stop.kind = .endOfFile) :
    s.advance.current.kind = s.nextKind := by
  obtain ⟨rest, stop⟩ := s
  match rest with
  | [] | [_] => exact h
  | _ :: _ :: _ => rfl

/-- Inside of a statement, `depth` braces deep, of which `behind` is left at its end; at most `n`
tokens are left now. -/
structure Within (behind : Option (List Token)) (n : Nat) (depth : Int) (tokens : List Token) :
    Prop where
  length_le : tokens.length ≤ n
  ends : statementEnd depth tokens = behind

/-- What is left behind a semicolon, `depth` braces deep. -/
def endBehindSemicolon (depth : Int) (tokens : List Token) : Option (List Token) :=
  if depth ≤ 0 then some tokens else statementEnd depth tokens

/-- What is left behind a closing brace. -/
def endBehindBrace (depth : Int) (tokens : List Token) : Option (List Token) :=
  if depth ≤ 0 ∧ NoElse tokens then some tokens else statementEnd depth tokens

/-- Behind a part of the statement that ended with a semicolon or a brace. -/
structure Past (finish : List Token → Option (List Token)) (behind : Option (List Token)) (n : Nat)
    (depth depth' : Int) (tokens : List Token) : Prop where
  depth : depth' = depth
  length_lt : tokens.length < n
  ends : finish tokens = behind

/-- Goes over some tokens and counts their braces. -/
def Moves (depth : Int) (tokens : List Token) (depth' : Int) (left : List Token) : Prop :=
  ∃ taken, tokens = taken ++ left ∧ depth' = depth + braceDepth taken

/-- What stands behind the statement is not seen: it does not go on with an `else`, and where no end
is ahead there is nothing. -/
structure Hidden (behind : Option (List Token)) (s t : Cursor) : Prop where
  stop : s.stop.kind = .endOfFile
  stop' : t.stop.kind = .endOfFile
  noElse : s.current.kind ≠ .wordElse
  noElse' : t.current.kind ≠ .wordElse
  same : behind = some [] ∨ s = t ∧ s.rest = []

/-- Both bounds are large enough for `n` tokens, or they are the same. -/
def Bounds (behind : Option (List Token)) (n b b' : Nat) : Prop :=
  b = b' ∨ behind = some [] ∧ n ≤ b ∧ n ≤ b'

section

variable {behind : Option (List Token)} {n m : Nat} {depth depth' depth'' : Int}
  {tokens left left' rest : List Token} {token : Token} {s t : Cursor}

theorem Moves.refl : Moves depth tokens depth tokens :=
  ⟨[], rfl, (Int.add_zero depth).symm⟩

theorem Moves.trans (h : Moves depth tokens depth' left) (h' : Moves depth' left depth'' left') :
    Moves depth tokens depth'' left' := by
  obtain ⟨taken, rfl, rfl⟩ := h
  obtain ⟨taken', rfl, rfl⟩ := h'
  refine ⟨taken ++ taken', by rw [List.append_assoc], ?_⟩
  rw [braceDepth_append, Int.add_assoc]

theorem moves_cons (step : Int) (h : braceDepth [token] = step) :
    Moves depth (token :: rest) (depth + step) rest :=
  ⟨[token], rfl, by rw [h]⟩

theorem Moves.length_le (h : Moves depth tokens depth' left) : left.length ≤ tokens.length := by
  obtain ⟨taken, rfl, -⟩ := h
  rw [List.length_append]
  exact Nat.le_add_left ..

theorem Within.mono (h : Within behind n depth tokens) (hle : n ≤ m) :
    Within behind m depth tokens :=
  ⟨Nat.le_trans h.length_le hle, h.ends⟩

theorem Within.self (h : Within behind n depth tokens) :
    Within behind tokens.length depth tokens :=
  ⟨Nat.le_refl _, h.ends⟩

theorem Within.current_eq (h : Within behind n depth tokens) (hidden : Hidden behind s t) :
    (t.push tokens).current = (s.push tokens).current := by
  cases tokens with
  | cons token rest => rfl
  | nil =>
    obtain hbehind | ⟨rfl, -⟩ := hidden.same
    · cases h.ends.trans hbehind
    · rfl

theorem Within.cons (h : Within behind n depth tokens) (hidden : Hidden behind s t)
    (hkind : (s.push tokens).current.kind ≠ .endOfFile) :
    ∃ rest, tokens = (s.push tokens).current :: rest := by
  cases tokens with
  | cons token rest => exact ⟨rest, rfl⟩
  | nil =>
    obtain hbehind | ⟨-, hrest⟩ := hidden.same
    · cases h.ends.trans hbehind
    · refine absurd ?_ hkind
      simpa [push, current, hrest] using hidden.stop

/-- One plain token nearer to the end. -/
theorem Within.plain (h : Within behind n depth (token :: rest)) (hkind : token.kind.Plain) :
    ∃ m, n = m + 1 ∧ Within behind m depth rest := by
  obtain ⟨hlength, hends⟩ := h
  obtain ⟨m, rfl⟩ := Nat.exists_eq_add_one_of_ne_zero (n := n) (by simp at hlength; omega)
  refine ⟨m, rfl, Nat.le_of_succ_le_succ hlength, ?_⟩
  have hnot : ¬Ends depth token rest := by
    rintro (⟨hsemicolon, -⟩ | ⟨hclose, -⟩)
    · exact hkind.1 hsemicolon
    · exact hkind.2.2 hclose
  rwa [statementEnd, if_neg hnot, braceDepth_plain hkind, Int.add_zero] at hends

theorem Within.semicolon (h : Within behind n depth (token :: rest))
    (hkind : token.kind = .semicolon) :
    Past (endBehindSemicolon depth) behind n depth depth rest := by
  refine ⟨rfl, h.length_le, ?_⟩
  rw [← h.ends]
  simp [statementEnd, endBehindSemicolon, Ends, hkind, braceDepth]

theorem Within.openCurly (h : Within behind n depth (token :: rest))
    (hkind : token.kind = .openCurly) : Within behind n (depth + 1) rest := by
  refine ⟨Nat.le_of_succ_le h.length_le, ?_⟩
  rw [← h.ends]
  simp [statementEnd, Ends, hkind, braceDepth]

theorem Within.closeCurly (h : Within behind n depth (token :: rest))
    (hkind : token.kind = .closeCurly) :
    Past (endBehindBrace (depth - 1)) behind n (depth - 1) (depth - 1) rest := by
  refine ⟨rfl, h.length_le, ?_⟩
  rw [← h.ends]
  simp [statementEnd, endBehindBrace, Ends, hkind, braceDepth, Int.sub_eq_add_neg]

theorem Past.mono {finish : List Token → Option (List Token)}
    (h : Past finish behind n depth depth' tokens) (hle : n ≤ m) :
    Past finish behind m depth depth' tokens :=
  ⟨h.depth, Nat.lt_of_lt_of_le h.length_lt hle, h.ends⟩

/-- Behind an inner statement its block goes on. -/
theorem Past.within_of_semicolon (h : Past (endBehindSemicolon depth) behind n depth depth' tokens)
    (hdepth : 1 ≤ depth) : Within behind (n - 1) depth tokens := by
  refine ⟨Nat.le_sub_one_of_lt h.length_lt, ?_⟩
  rw [← h.ends, endBehindSemicolon, if_neg (by omega)]

theorem Past.within_of_brace (h : Past (endBehindBrace depth) behind n depth depth' tokens)
    (hdepth : 1 ≤ depth) : Within behind (n - 1) depth tokens := by
  refine ⟨Nat.le_sub_one_of_lt h.length_lt, ?_⟩
  rw [← h.ends, endBehindBrace, if_neg (by omega)]

/-- Behind a brace an `else` goes on with the statement. -/
theorem Past.within_else (h : Past (endBehindBrace depth) behind n depth depth' (token :: rest))
    (hkind : token.kind = .wordElse) : Within behind (n - 1) depth (token :: rest) := by
  refine ⟨Nat.le_sub_one_of_lt h.length_lt, ?_⟩
  have helse : ¬NoElse (token :: rest) := by
    simp [NoElse, hkind]
  rw [← h.ends, endBehindBrace, if_neg fun hend => helse hend.2]

theorem Bounds.mono {b b' : Nat} (h : Bounds behind n b b') (hle : m ≤ n) :
    Bounds behind m b b' :=
  h.imp_right fun h => ⟨h.1, Nat.le_trans hle h.2.1, Nat.le_trans hle h.2.2⟩

theorem Bounds.zero {b : Nat} (h : Bounds behind n 0 b) (hwithin : Within behind n depth tokens) :
    b = 0 := by
  obtain rfl | ⟨hbehind, hle, -⟩ := h
  · rfl
  · have hpos := length_lt_of_statementEnd (hwithin.ends.trans hbehind)
    have hlength := hwithin.length_le
    omega

theorem Bounds.succ {b b' : Nat} (h : Bounds behind n (b + 1) b')
    (hwithin : Within behind n depth tokens) : ∃ c, b' = c + 1 ∧ Bounds behind (n - 1) b c := by
  obtain rfl | ⟨hbehind, hle, hle'⟩ := h
  · exact ⟨b, rfl, .inl rfl⟩
  · have hpos := length_lt_of_statementEnd (hwithin.ends.trans hbehind)
    have hlength := hwithin.length_le
    exact ⟨b' - 1, by omega, .inr ⟨hbehind, by omega, by omega⟩⟩

end

end Cursor

namespace Parser

open Cursor

variable {s t : Cursor} {behind : Option (List Token)} {n : Nat} {depth : Int}
  {tokens rest : List Token} {token : Token}

/-- Two parsers, one in front of `s` and one in front of `t`, come to the same result and leave the
same tokens, at a place that `after` tells, or give up at the same token inside of the statement. -/
def Scans (s t : Cursor) (behind : Option (List Token)) (after : Int → List Token → Prop)
    (p q : Parser α) (depth : Int) (tokens : List Token) : Prop :=
  Hidden behind s t → ∃ depth' left, Moves depth tokens depth' left ∧
    ((∃ a, after depth' left ∧ p (s.push tokens) = .ok a (s.push left) ∧
      q (t.push tokens) = .ok a (t.push left)) ∨
    ∃ e : Error, e.StandsAt (s.push left) ∧ statementEnd depth' left = behind ∧
      p (s.push tokens) = .error e (s.push left) ∧ q (t.push tokens) = .error e (t.push left))

/-- Still inside, as deep as before. -/
def Stays (behind : Option (List Token)) (n : Nat) (depth depth' : Int) (left : List Token) :
    Prop :=
  depth' = depth ∧ Within behind n depth left

namespace Scans

variable {after mid : Int → List Token → Prop}

theorem pure {a : α} (h : after depth tokens) :
    Scans s t behind after (Pure.pure a) (Pure.pure a) depth tokens :=
  fun _ => ⟨depth, tokens, .refl, .inl ⟨a, h, rfl, rfl⟩⟩

theorem bind {p q : Parser α} {f g : α → Parser β} (hp : Scans s t behind mid p q depth tokens)
    (hf : ∀ a depth' left, mid depth' left → Scans s t behind after (f a) (g a) depth' left) :
    Scans s t behind after (p >>= f) (q >>= g) depth tokens := by
  intro hidden
  obtain ⟨depth', left, hmoves, ⟨a, hmid, hp, hq⟩ | ⟨e, hstands, hends, hp, hq⟩⟩ := hp hidden
  · have hp' : (p >>= f) (s.push tokens) = f a (s.push left) := by
      simp only [Bind.bind, EStateM.bind, hp]
    have hq' : (q >>= g) (t.push tokens) = g a (t.push left) := by
      simp only [Bind.bind, EStateM.bind, hq]
    rw [hp', hq']
    obtain ⟨depth'', left', hmoves', hresult⟩ := hf a depth' left hmid hidden
    exact ⟨depth'', left', hmoves.trans hmoves', hresult⟩
  · refine ⟨depth', left, hmoves, .inr ⟨e, hstands, hends, ?_, ?_⟩⟩
    · simp only [Bind.bind, EStateM.bind, hp]
    · simp only [Bind.bind, EStateM.bind, hq]

theorem imp {p q : Parser α} (hp : Scans s t behind mid p q depth tokens)
    (h : ∀ depth' left, Moves depth tokens depth' left → mid depth' left → after depth' left) :
    Scans s t behind after p q depth tokens := by
  intro hidden
  obtain ⟨depth', left, hmoves, ⟨a, hmid, hresult⟩ | herror⟩ := hp hidden
  · exact ⟨depth', left, hmoves, .inl ⟨a, h depth' left hmoves hmid, hresult⟩⟩
  · exact ⟨depth', left, hmoves, .inr herror⟩

/-- A part that stays inside as deep as before. -/
theorem header {p q : Parser α} {f g : α → Parser β}
    (hp : Scans s t behind (Stays behind n depth) p q depth tokens)
    (hf : ∀ a left, Within behind n depth left → Scans s t behind after (f a) (g a) depth left) :
    Scans s t behind after (p >>= f) (q >>= g) depth tokens := by
  apply hp.bind
  intro a depth' left h
  obtain ⟨rfl, h⟩ := h
  exact hf a left h

theorem current {f g : Token → Parser α} (h : Within behind n depth tokens)
    (hf : ∀ token, (token.kind ≠ .endOfFile → ∃ rest, tokens = token :: rest) →
      Scans s t behind after (f token) (g token) depth tokens) :
    Scans s t behind after (Parser.current >>= f) (Parser.current >>= g) depth tokens := by
  intro hidden
  have hresult := hf (s.push tokens).current (h.cons hidden) hidden
  have hp : (Parser.current >>= f) (s.push tokens) = f (s.push tokens).current (s.push tokens) :=
    rfl
  have hq : (Parser.current >>= g) (t.push tokens) = g (t.push tokens).current (t.push tokens) :=
    rfl
  rw [hp, hq, h.current_eq hidden]
  exact hresult

theorem kind {f g : TokenKind → Parser α} (h : Within behind n depth tokens)
    (hf : ∀ token, (token.kind ≠ .endOfFile → ∃ rest, tokens = token :: rest) →
      Scans s t behind after (f token.kind) (g token.kind) depth tokens) :
    Scans s t behind after (Parser.kind >>= f) (Parser.kind >>= g) depth tokens :=
  current h hf

theorem position {f g : Position → Parser α} (h : Within behind n depth tokens)
    (hf : ∀ token, (token.kind ≠ .endOfFile → ∃ rest, tokens = token :: rest) →
      Scans s t behind after (f token.span.start) (g token.span.start) depth tokens) :
    Scans s t behind after (Parser.position >>= f) (Parser.position >>= g) depth tokens :=
  current h hf

theorem bounded {p q : Nat → Parser α}
    (h : ∀ b b', Bounds behind tokens.length b b' →
      Scans s t behind after (p b) (q b') depth tokens) :
    Scans s t behind after (Parser.bounded p) (Parser.bounded q) depth tokens := by
  intro hidden
  refine h (s.push tokens).rest.length (t.push tokens).rest.length ?_ hidden
  obtain hbehind | ⟨rfl, -⟩ := hidden.same
  · refine .inr ⟨hbehind, ?_, ?_⟩
    · simp [push]
    · simp [push]
  · exact .inl rfl

theorem failWith {cause : Token → Cause} (h : Within behind n depth tokens)
    (hcause : ∀ token, (cause token).kind = .syntaxError) :
    Scans s t behind after (Parser.failWith cause : Parser α) (Parser.failWith cause) depth
      tokens := by
  intro hidden
  refine ⟨depth, tokens, .refl, .inr ⟨_, ⟨_, hcause _, rfl⟩, h.ends, rfl, ?_⟩⟩
  rw [← h.current_eq hidden]
  rfl

theorem unexpected (h : Within behind n depth tokens) :
    Scans s t behind after (Parser.unexpected : Parser α) Parser.unexpected depth tokens :=
  failWith h fun _ => rfl

theorem unexpectedBecause (message : String) (h : Within behind n depth tokens) :
    Scans s t behind after (Parser.unexpectedBecause message : Parser α)
      (Parser.unexpectedBecause message) depth tokens :=
  failWith h fun _ => rfl

theorem ite {c : Prop} [Decidable c] {p p' q q' : Parser α}
    (h : c → Scans s t behind after p q depth tokens)
    (h' : ¬c → Scans s t behind after p' q' depth tokens) :
    Scans s t behind after (if c then p else p') (if c then q else q') depth tokens := by
  by_cases hc : c
  · rw [if_pos hc, if_pos hc]
    exact h hc
  · rw [if_neg hc, if_neg hc]
    exact h' hc

/-- Taking a token of the statement, whatever it is. -/
theorem next {p q : Parser α} (step : Int) (hstep : braceDepth [token] = step)
    (hp : Scans s t behind after p q (depth + step) rest) :
    Scans s t behind after (do Parser.skip; p) (do Parser.skip; q) depth (token :: rest) := by
  intro hidden
  obtain ⟨depth', left, hmoves, hresult⟩ := hp hidden
  exact ⟨depth', left, (moves_cons step hstep).trans hmoves, hresult⟩

/-- Taking a plain token. -/
theorem skip {p q : Parser α} (hkind : token.kind.Plain) (h : Within behind n depth (token :: rest))
    (hp : ∀ m, n = m + 1 → Within behind m depth rest → Scans s t behind after p q depth rest) :
    Scans s t behind after (do Parser.skip; p) (do Parser.skip; q) depth (token :: rest) := by
  obtain ⟨m, hn, hrest⟩ := h.plain hkind
  apply next 0 (braceDepth_plain hkind)
  rw [Int.add_zero]
  exact hp m hn hrest

/-- The same of a token that has just been looked at. -/
theorem take {kind : TokenKind} {p q : Parser α} (hkind : token.kind = kind)
    (hplain : kind.Plain ∧ kind ≠ .endOfFile)
    (hcons : token.kind ≠ .endOfFile → ∃ rest, tokens = token :: rest)
    (h : Within behind n depth tokens)
    (hp : ∀ m rest, n = m + 1 → Within behind m depth rest → Scans s t behind after p q depth rest) :
    Scans s t behind after (do Parser.skip; p) (do Parser.skip; q) depth tokens := by
  subst hkind
  obtain ⟨rest, rfl⟩ := hcons hplain.2
  exact skip hplain.1 h fun m => hp m rest

theorem advance (h : after (depth + braceDepth [token]) rest) :
    Scans s t behind after Parser.advance Parser.advance depth (token :: rest) :=
  fun _ => ⟨_, rest, moves_cons _ rfl, .inl ⟨token, h, rfl, rfl⟩⟩

theorem expect {kind : TokenKind} (hne : kind ≠ .endOfFile) (h : Within behind n depth tokens)
    (hafter : ∀ token rest, token.kind = kind → Within behind n depth (token :: rest) →
      after (depth + braceDepth [token]) rest) :
    Scans s t behind after (Parser.expect kind) (Parser.expect kind) depth tokens := by
  refine current h fun token hcons => ite (fun hkind => ?_) fun _ => unexpected h
  obtain ⟨rest, rfl⟩ := hcons (hkind ▸ hne)
  exact advance (hafter token rest hkind h)

theorem expectBecause {kind : TokenKind} (message : String) (hne : kind ≠ .endOfFile)
    (h : Within behind n depth tokens)
    (hafter : ∀ token rest, token.kind = kind → Within behind n depth (token :: rest) →
      after (depth + braceDepth [token]) rest) :
    Scans s t behind after (Parser.expectBecause kind message) (Parser.expectBecause kind message)
      depth tokens := by
  refine current h fun token hcons => ite (fun hkind => ?_) fun _ => unexpectedBecause message h
  obtain ⟨rest, rfl⟩ := hcons (hkind ▸ hne)
  exact advance (hafter token rest hkind h)

theorem semicolon (h : Within behind n depth tokens) :
    Scans s t behind (Past (endBehindSemicolon depth) behind n depth) (Parser.expect .semicolon)
      (Parser.expect .semicolon) depth tokens := by
  apply expect (by decide) h
  intro token rest hkind h
  have hstep : braceDepth [token] = 0 := by
    simp [braceDepth, hkind]
  rw [hstep, Int.add_zero]
  exact h.semicolon hkind

theorem openCurly (message : String) (h : Within behind n depth tokens) :
    Scans s t behind (fun depth' left => depth' = depth + 1 ∧ Within behind n (depth + 1) left)
      (Parser.expectBecause .openCurly message) (Parser.expectBecause .openCurly message) depth
      tokens := by
  apply expectBecause message (by decide) h
  intro token rest hkind h
  have hstep : braceDepth [token] = 1 := by
    simp [braceDepth, hkind]
  rw [hstep]
  exact ⟨rfl, h.openCurly hkind⟩

theorem closeCurly {p q : Parser α} (hkind : token.kind = .closeCurly)
    (h : Within behind n depth (token :: rest))
    (hp : Past (endBehindBrace (depth - 1)) behind n (depth - 1) (depth - 1) rest →
      Scans s t behind after p q (depth - 1) rest) :
    Scans s t behind after (do Parser.skip; p) (do Parser.skip; q) depth (token :: rest) := by
  refine next (-1) ?_ (hp (h.closeCurly hkind))
  simp [braceDepth, hkind]

/-- Behind a brace only an `else` is looked for, and that is never hidden. -/
theorem kind_else {p p' q q' : Parser α}
    (h : ∀ token rest, tokens = token :: rest → token.kind = .wordElse →
      Scans s t behind after p q depth tokens)
    (h' : Scans s t behind after p' q' depth tokens) :
    Scans s t behind after (Parser.kind >>= fun kind => if kind = .wordElse then p else p')
      (Parser.kind >>= fun kind => if kind = .wordElse then q else q') depth tokens := by
  cases tokens with
  | nil =>
    intro hidden
    have hp : (Parser.kind >>= fun kind => if kind = .wordElse then p else p') (s.push []) =
        p' (s.push []) := congrFun (if_neg hidden.noElse) _
    have hq : (Parser.kind >>= fun kind => if kind = .wordElse then q else q') (t.push []) =
        q' (t.push []) := congrFun (if_neg hidden.noElse') _
    rw [hp, hq]
    exact h' hidden
  | cons token rest =>
    exact ite (h token rest rfl) fun _ => h'

end Scans

/-- A plain token leaves everything as it is. -/
theorem stays_of_plain (hkind : token.kind.Plain) (h : Within behind n depth (token :: rest)) :
    Stays behind (n - 1) depth (depth + braceDepth [token]) rest := by
  obtain ⟨m, rfl, hrest⟩ := h.plain hkind
  exact ⟨by rw [braceDepth_plain hkind, Int.add_zero], hrest⟩

theorem scans_advance (hkind : token.kind.Plain) (h : Within behind n depth (token :: rest)) :
    Scans s t behind (Stays behind (n - 1) depth) advance advance depth (token :: rest) :=
  .advance (stays_of_plain hkind h)

theorem scans_expect {kind : TokenKind} (hplain : kind.Plain ∧ kind ≠ .endOfFile)
    (h : Within behind n depth tokens) :
    Scans s t behind (Stays behind (n - 1) depth) (expect kind) (expect kind) depth tokens :=
  .expect hplain.2 h fun _ _ hkind h => stays_of_plain (hkind ▸ hplain.1) h

theorem scans_expectBecause {kind : TokenKind} (message : String)
    (hplain : kind.Plain ∧ kind ≠ .endOfFile) (h : Within behind n depth tokens) :
    Scans s t behind (Stays behind (n - 1) depth) (expectBecause kind message)
      (expectBecause kind message) depth tokens :=
  .expectBecause message hplain.2 h fun _ _ hkind h => stays_of_plain (hkind ▸ hplain.1) h

end Parser

end Script

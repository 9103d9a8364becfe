import Script.Proofs.Token.Layout

/-!
# The words of a text

The words of a text are the kinds and texts of its tokens. They do not depend on where the text
stands, and where each piece ends is told by the one character behind it: a piece is read whole if it
is no longer a piece with that character. So a text can be put together from pieces one by one.
-/

namespace Script

/-- The kind and the text of a token. -/
abbrev Word := TokenKind × String

def Token.word (t : Token) : Word := (t.kind, t.text)

/-- The word that closes every file. -/
def Word.endOfFile : Word := (.endOfFile, "EOF")

/-- The piece does not go on with the first character of the rest. -/
def EndsBefore (piece rest : List Char) : Prop :=
  ∀ c ∈ rest.head?, ¬IsPiece (piece ++ [c])

/-- Gaps, and between them tokens that are these words. -/
inductive Reads : List Char → List Word → Prop
  | nil : Reads [] []
  | gap {piece rest : List Char} {words : List Word} : Lexeme.gap.Written piece →
    EndsBefore piece rest → Reads rest words → Reads (piece ++ rest) words
  | token {kind : TokenKind} {text : String} {piece rest : List Char} {words : List Word} :
    (Lexeme.token kind text).Written piece → EndsBefore piece rest → Reads rest words →
    Reads (piece ++ rest) ((kind, text) :: words)

/-! ### One character of look-ahead -/

theorem endsBefore_of_longest {piece rest : List Char} (h : LongestPiece (piece ++ rest) piece) :
    EndsBefore piece rest := by
  intro c hc hpiece
  obtain ⟨tail, rfl⟩ : ∃ tail, rest = c :: tail := by
    cases rest with
    | nil => cases hc
    | cons d tail => exact ⟨tail, by simpa using hc⟩
  have hfront : piece ++ [c] <+: piece ++ c :: tail := ⟨tail, by simp⟩
  have hlength := h.longest _ hfront hpiece
  rw [List.length_append] at hlength
  exact absurd hlength (Nat.not_succ_le_self _)

theorem run_append {part : Char → Bool} {lexeme : List Char → Lexeme} {piece rest : List Char}
    (hpart : ∀ c ∈ piece, part c) (hnext : ∀ c ∈ rest.head?, ¬part c) :
    Scan.run part lexeme (piece ++ rest) = ⟨lexeme piece, piece, rest⟩ := by
  have hrest : rest.takeWhile part = [] ∧ rest.dropWhile part = rest := by
    cases rest with
    | nil => exact ⟨rfl, rfl⟩
    | cons c rest =>
      have hc := hnext c rfl
      simp [hc]
  rw [Scan.run, List.takeWhile_append_of_pos hpart, List.dropWhile_append_of_pos hpart, hrest.1,
    hrest.2, List.append_nil]

theorem mark_injective {mark : List Char} {kind kind' : TokenKind}
    (h : (mark, kind) ∈ TokenKind.marks) (h' : (mark, kind') ∈ TokenKind.marks) : kind = kind' := by
  have hall : ∀ entry ∈ TokenKind.marks, ∀ entry' ∈ TokenKind.marks, entry.1 = entry'.1 →
      entry.2 = entry'.2 := by
    decide
  exact hall _ h _ h' rfl

theorem mark?_append {mark rest : List Char} {kind : TokenKind}
    (h : (mark, kind) ∈ TokenKind.marks) (hends : EndsBefore mark rest) :
    Scan.mark? (mark ++ rest) = some ⟨.token kind (String.ofList mark), mark, rest⟩ := by
  obtain ⟨⟨found, kind'⟩, hfind, hle⟩ :=
    find?_longest (fun other => other.isPrefixOf (mark ++ rest)) h
      (List.isPrefixOf_iff_prefix.2 (List.prefix_append ..))
  have hfound := List.mem_of_find?_eq_some hfind
  have hfront : found <+: mark ++ rest := by simpa using List.find?_some hfind
  obtain ⟨more, rfl⟩ := List.prefix_of_prefix_length_le (List.prefix_append ..) hfront hle
  -- marks have at most two characters, so a longer one goes on with the next character alone
  obtain ⟨c, cs, rfl, -⟩ := mark_head h
  obtain ⟨d, ds, heq, -, -, -, -, -, -, hlength⟩ := mark_head hfound
  rw [List.cons_append, List.cons.injEq] at heq
  obtain ⟨rfl, rfl⟩ := heq
  rw [List.length_append] at hlength
  match more with
  | [] =>
    rw [List.append_nil] at hfind hfound
    rw [Scan.mark?, hfind, mark_injective h hfound, Option.map_some]
    dsimp only
    rw [List.drop_left]
  | [next] =>
    obtain ⟨tail, htail⟩ := hfront
    rw [List.append_assoc, List.append_cancel_left_eq] at htail
    have hnext : next ∈ rest.head? := by simp [← htail]
    exact absurd ⟨_, .mark hfound⟩ (hends next hnext)
  | _ :: _ :: _ =>
    simp only [List.length_cons] at hlength
    omega

/-- A piece is read where the next character ends it. -/
theorem scan?_append {lexeme : Lexeme} {piece rest : List Char} (h : lexeme.Written piece)
    (hends : EndsBefore piece rest) : scan? (piece ++ rest) = some ⟨lexeme, piece, rest⟩ := by
  have hnext {part : Char → Bool} (hpart : ∀ c ∈ piece, part c)
      (hpiece : ∀ cs, (∀ c ∈ cs, part c) → piece <+: cs → IsPiece cs) :
      ∀ c ∈ rest.head?, ¬part c := by
    intro c hc hpartc
    refine hends c hc (hpiece _ (fun d hd => ?_) (List.prefix_append ..))
    obtain hd | hd := List.mem_append.1 hd
    · exact hpart d hd
    · rw [List.mem_singleton.1 hd]
      exact hpartc
  cases h with
  | @word c cs hstart hparts =>
    have hall : ∀ d ∈ c :: cs, isWordPart d :=
      List.forall_mem_cons.2 ⟨isWordPart_of_isWordStart hstart, hparts⟩
    rw [List.cons_append, scan?, if_pos hstart, ← List.cons_append]
    refine congrArg some (run_append hall (hnext hall ?_))
    rintro _ hcs ⟨more, rfl⟩
    rw [List.cons_append] at hcs ⊢
    exact ⟨_, .word hstart (List.forall_mem_cons.1 hcs).2⟩
  | number hne hdigits =>
    obtain ⟨c, cs, rfl⟩ := List.exists_cons_of_ne_nil hne
    have hdigit := hdigits c List.mem_cons_self
    rw [List.cons_append, scan?, if_neg (not_isWordStart_of_isDigit hdigit), if_pos hdigit,
      ← List.cons_append]
    refine congrArg some (run_append hdigits (hnext hdigits ?_))
    rintro _ hcs ⟨more, rfl⟩
    exact ⟨_, .number (by simp) hcs⟩
  | @literal raw hbody =>
    have htext : '"' :: raw ++ ['"'] ++ rest = '"' :: (raw ++ '"' :: rest) := by simp
    rw [htext, scan?, if_neg (by decide), if_neg (by decide), if_neg (by decide), if_pos rfl,
      Scan.literal?, StringLiteral.split?_append hbody]
    rfl
  | @mark _ kind hmark =>
    obtain ⟨c, cs, rfl, hword, hdigit, hblank, hquote, -⟩ := mark_head hmark
    have hcomment : ¬(c = '/' ∧ (cs ++ rest).head? = some '/') := by
      rintro ⟨rfl, hslash⟩
      have hall : ∀ entry ∈ TokenKind.marks, entry.1.head? = some '/' →
          entry.1.tail.head? ≠ some '/' := by
        decide
      cases cs with
      | nil =>
        have hpiece : IsPiece ['/', '/'] := ⟨.gap, .comment (List.forall_mem_nil _)⟩
        exact hends '/' hslash hpiece
      | cons d cs => exact hall _ hmark rfl (by simpa using hslash)
    rw [List.cons_append, scan?, if_neg hword, if_neg hdigit, if_neg hblank, if_neg hquote,
      if_neg hcomment]
    exact mark?_append hmark hends
  | blank hne hblanks =>
    obtain ⟨c, cs, rfl⟩ := List.exists_cons_of_ne_nil hne
    have hblank := hblanks c List.mem_cons_self
    rw [List.cons_append, scan?, if_neg (not_isWordStart_of_isBlank hblank),
      if_neg (not_isDigit_of_isBlank hblank), if_pos hblank, ← List.cons_append]
    refine congrArg some (run_append hblanks (hnext hblanks ?_))
    rintro _ hcs ⟨more, rfl⟩
    exact ⟨_, .blank (by simp) hcs⟩
  | @comment cs hline =>
    have hall : ∀ c ∈ '/' :: '/' :: cs, decide (c ≠ '\n') := by simpa using hline
    rw [List.cons_append, List.cons_append, scan?, if_neg (by decide), if_neg (by decide),
      if_neg (by decide), if_neg (by decide), if_pos ⟨rfl, rfl⟩, ← List.cons_append,
      ← List.cons_append]
    refine congrArg some (run_append hall (hnext hall ?_))
    rintro _ hcs ⟨more, rfl⟩
    have hmore : ∀ c ∈ cs ++ more, c ≠ '\n' := fun c hc => by
      simpa using hcs c (List.mem_cons_of_mem _ (List.mem_cons_of_mem _ hc))
    exact ⟨_, .comment hmore⟩

/-- What is read ends where it does. -/
theorem endsBefore_of_scan? {cs : List Char} {s : Scan} (h : scan? cs = some s) :
    EndsBefore s.taken s.rest :=
  endsBefore_of_longest ((written_of_scan? h).2 ▸ longestPiece_of_scan? h)

/-! ### Words and tokens -/

theorem tokensFrom_of_reads {cs : List Char} {words : List Word} (h : Reads cs words)
    (p : Position) : ∃ tokens, tokensFrom p cs = .ok tokens ∧
      tokens.map Token.word = words ++ [.endOfFile] := by
  induction h generalizing p with
  | nil => exact ⟨[.endOfFile p], by rw [tokensFrom], rfl⟩
  | gap hwritten hends _ ih =>
    rw [tokensFrom_piece p (scan?_append hwritten hends)]
    exact ih _
  | @token kind text piece rest words hwritten hends _ ih =>
    obtain ⟨tokens, htokens, hwords⟩ := ih (p.advance piece)
    refine ⟨⟨kind, text, ⟨p, p.advance piece⟩⟩ :: tokens, ?_, ?_⟩
    · rw [tokensFrom_piece p (scan?_append hwritten hends)]
      dsimp only
      rw [htokens]
      rfl
    · rw [List.map_cons, hwords]
      rfl

theorem tokenize_of_reads {source : String} {words : List Word} (h : Reads source.toList words)
    (file : String) : ∃ tokens, tokenize source file = .ok tokens ∧
      tokens.map Token.word = words ++ [.endOfFile] :=
  tokensFrom_of_reads h (.start file)

end Script

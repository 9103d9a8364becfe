import Script.Proofs.Token.Words

/-!
# Spacing is irrelevant

No token goes on with a blank character, and none begins where a comment does. So the gaps of a text
can be changed as long as no two tokens come to stand together: other blank characters in place of a
gap, or more of them at either side of it, leave the words of the text as they are.
-/

namespace Script

/-- What the characters between two tokens may be changed to. -/
inductive Respacing : List Char → List Char → Prop
  | replaced {gap blanks : List Char} : blanks ≠ [] → (∀ c ∈ blanks, isBlank c) →
    Respacing gap blanks
  | inFront {gap blanks : List Char} : (∀ c ∈ blanks, isBlank c) → Respacing gap (blanks ++ gap)
  | behind {gap blanks : List Char} : (∀ c ∈ blanks, isBlank c) → Respacing gap (gap ++ blanks)

/-- The first text holds the tokens at their places behind the characters `before`, and the second
one is it with other characters between them, in front of the first and behind the last. -/
inductive Respaced (file : String) : List Char → List Char → List Token → List Char → Prop
  | done {before gap gap' : List Char} : Respacing gap gap' →
    Respaced file before gap [.endOfFile (.behind file (before ++ gap))] gap'
  | token {before gap gap' lexeme rest rest' : List Char} {t : Token} {ts : List Token} :
    Respacing gap gap' → t.Covers file (before ++ gap) lexeme →
    Respaced file (before ++ gap ++ lexeme) rest ts rest' →
    Respaced file before (gap ++ lexeme ++ rest) (t :: ts) (gap' ++ lexeme ++ rest')

/-- Gaps in front of `rest`. Every comment reaches to the end of its line. -/
inductive Skipped (rest : List Char) : List Char → Prop
  | nil : Skipped rest []
  | blank {piece more : List Char} : (∀ c ∈ piece, isBlank c) → Skipped rest more →
    Skipped rest (piece ++ more)
  | comment {piece more : List Char} : (∀ c ∈ piece, c ≠ '\n') →
    (∀ c ∈ (more ++ rest).head?, c = '\n') → Skipped rest more →
    Skipped rest ('/' :: '/' :: piece ++ more)

/-- The tokens laid over a text as it is read. -/
inductive Cut (file : String) : List Char → List Char → List Token → Prop
  | done {before gap : List Char} : Skipped [] gap →
    Cut file before gap [.endOfFile (.behind file (before ++ gap))]
  | token {before gap lexeme rest : List Char} {t : Token} {ts : List Token} :
    Skipped (lexeme ++ rest) gap → t.Covers file (before ++ gap) lexeme → EndsBefore lexeme rest →
    Cut file (before ++ gap ++ lexeme) rest ts →
    Cut file before (gap ++ lexeme ++ rest) (t :: ts)

/-! ### Blank characters and comments -/

theorem not_isWordPart_of_isBlank {c : Char} (h : isBlank c) : ¬isWordPart c := by
  have hstart := not_isWordStart_of_isBlank h
  have hdigit := not_isDigit_of_isBlank h
  simp only [isWordStart, isWordPart, Char.isAlphanum, Bool.or_eq_true, not_or] at hstart ⊢
  exact ⟨⟨hstart.1, hdigit⟩, hstart.2⟩

/-- What is asked of each character of a text is decided for these alone, not for all there are. -/
instance (priority := high) decidableForallChar (cs : List Char) (p : Char → Prop)
    [DecidablePred p] : Decidable (∀ c ∈ cs, p c) :=
  List.decidableBAll p cs

theorem mark_not_blank {mark : List Char} {kind : TokenKind} (h : (mark, kind) ∈ TokenKind.marks) :
    (∀ c ∈ mark, ¬isBlank c) ∧ ¬['/', '/'] <+: mark := by
  have hall : ∀ entry ∈ TokenKind.marks, (∀ c ∈ entry.1, ¬isBlank c) ∧ ¬['/', '/'] <+: entry.1 := by
    decide
  exact hall _ h

/-- No token begins with a blank character or as a comment. -/
theorem Lexeme.Written.front {kind : TokenKind} {text : String} {piece : List Char}
    (h : (Lexeme.token kind text).Written piece) :
    ∃ c cs, piece = c :: cs ∧ ¬isBlank c ∧ ¬['/', '/'] <+: piece := by
  cases h with
  | @word c cs hstart _ =>
    refine ⟨c, cs, rfl, fun hblank => not_isWordStart_of_isBlank hblank hstart, ?_⟩
    rintro ⟨more, hmore⟩
    obtain ⟨rfl, -⟩ := List.cons.inj hmore
    exact absurd hstart (by decide)
  | number hne hdigits =>
    obtain ⟨c, cs, rfl⟩ := List.exists_cons_of_ne_nil hne
    have hdigit := hdigits c List.mem_cons_self
    refine ⟨c, cs, rfl, fun hblank => not_isDigit_of_isBlank hblank hdigit, ?_⟩
    rintro ⟨more, hmore⟩
    obtain ⟨rfl, -⟩ := List.cons.inj hmore
    exact absurd hdigit (by decide)
  | literal _ =>
    refine ⟨_, _, rfl, by decide, ?_⟩
    rintro ⟨more, hmore⟩
    exact absurd (List.cons.inj hmore).1 (by decide)
  | mark hmark =>
    obtain ⟨hblank, hcomment⟩ := mark_not_blank hmark
    obtain ⟨c, cs, rfl, -⟩ := mark_head hmark
    exact ⟨c, cs, rfl, hblank c List.mem_cons_self, hcomment⟩

/-- Only a comment begins as one. -/
theorem Lexeme.Written.comment_inv {lexeme : Lexeme} {cs : List Char}
    (h : lexeme.Written ('/' :: '/' :: cs)) : ∀ c ∈ cs, c ≠ '\n' := by
  generalize htext : '/' :: '/' :: cs = text at h
  cases h with
  | blank _ hblanks =>
    subst htext
    exact absurd (hblanks '/' List.mem_cons_self) (by decide)
  | comment hline =>
    obtain rfl := (List.cons.inj (List.cons.inj htext).2).2
    exact hline
  | word hstart hparts =>
    obtain ⟨_, _, -, -, hcomment⟩ := (Lexeme.Written.word hstart hparts).front
    exact absurd ⟨cs, htext⟩ hcomment
  | number hne hdigits =>
    obtain ⟨_, _, -, -, hcomment⟩ := (Lexeme.Written.number hne hdigits).front
    exact absurd ⟨cs, htext⟩ hcomment
  | literal hbody =>
    obtain ⟨_, _, -, -, hcomment⟩ := (Lexeme.Written.literal hbody).front
    exact absurd ⟨cs, htext⟩ hcomment
  | mark hmark =>
    obtain ⟨_, _, -, -, hcomment⟩ := (Lexeme.Written.mark hmark).front
    exact absurd ⟨cs, htext⟩ hcomment

/-- A token does not go on with a character that is part of no word, ends no literal and no mark,
and begins no comment. -/
theorem Lexeme.Written.not_isPiece {kind : TokenKind} {text : String} {piece : List Char}
    (h : (Lexeme.token kind text).Written piece) {c : Char} (hword : ¬isWordPart c)
    (hquote : c ≠ '"') (hslash : c ≠ '/') (hmark : ∀ entry ∈ TokenKind.marks, c ∉ entry.1.tail) :
    ¬IsPiece (piece ++ [c]) := by
  obtain ⟨d, ds, rfl, hd, hcomment⟩ := h.front
  have hlast : c ∈ ds ++ [c] := List.mem_append_right _ (List.mem_singleton_self c)
  rintro ⟨lexeme, hwritten⟩
  generalize htext : d :: ds ++ [c] = cs at hwritten
  cases hwritten with
  | word hstart hparts =>
    obtain ⟨rfl, rfl⟩ := List.cons.inj htext
    exact hword (hparts c hlast)
  | number _ hdigits =>
    subst htext
    refine hword ?_
    have hdigit := hdigits c (List.mem_cons_of_mem d hlast)
    simp [isWordPart, Char.isAlphanum, hdigit]
  | literal _ => exact hquote (List.singleton_inj.1 (List.append_inj_right' htext rfl))
  | mark hentry =>
    subst htext
    exact hmark _ hentry hlast
  | blank _ hblanks =>
    subst htext
    exact hd (hblanks d List.mem_cons_self)
  | comment _ =>
    obtain ⟨rfl, htail⟩ := List.cons.inj htext
    cases ds with
    | nil =>
      exact hslash (List.cons.inj htail).1
    | cons e es =>
      obtain ⟨rfl, -⟩ := List.cons.inj htail
      exact hcomment ⟨es, rfl⟩

theorem Lexeme.Written.not_isPiece_blank {kind : TokenKind} {text : String} {piece : List Char}
    (h : (Lexeme.token kind text).Written piece) {c : Char} (hc : isBlank c) :
    ¬IsPiece (piece ++ [c]) := by
  refine h.not_isPiece (not_isWordPart_of_isBlank hc) ?_ ?_ fun entry hentry hmem => ?_
  · rintro rfl
    exact absurd hc (by decide)
  · rintro rfl
    exact absurd hc (by decide)
  · exact (mark_not_blank hentry).1 c (List.mem_of_mem_tail hmem) hc

/-- What follows a token may be changed behind its first character, or to begin with a blank one. -/
theorem EndsBefore.respaced {kind : TokenKind} {text : String} {piece rest rest' : List Char}
    (h : EndsBefore piece rest) (hwritten : (Lexeme.token kind text).Written piece)
    (hhead : rest'.head? = rest.head? ∨ ∃ c ∈ rest'.head?, isBlank c) : EndsBefore piece rest' := by
  intro c hc
  obtain hhead | ⟨d, hd, hblank⟩ := hhead
  · exact h c (hhead ▸ hc)
  · obtain rfl : d = c := Option.mem_unique hd hc
    exact hwritten.not_isPiece_blank hblank

/-- Where a comment begins no token is read. -/
theorem not_comment_of_endsBefore {kind : TokenKind} {text : String} {piece rest : List Char}
    (hwritten : (Lexeme.token kind text).Written piece) (hends : EndsBefore piece rest) :
    ¬['/', '/'] <+: piece ++ rest := by
  obtain ⟨c, cs, rfl, -, hcomment⟩ := hwritten.front
  rintro ⟨more, hmore⟩
  obtain ⟨rfl, htail⟩ := List.cons.inj hmore
  cases cs with
  | nil =>
    obtain rfl : '/' :: more = rest := htail
    have hpiece : IsPiece ['/', '/'] := ⟨.gap, .comment (List.forall_mem_nil _)⟩
    exact hends '/' rfl hpiece
  | cons d cs =>
    obtain rfl := (List.cons.inj htail).1
    exact hcomment ⟨cs, rfl⟩

/-! ### Reading over gaps -/

namespace Reads

variable {cs rest : List Char} {words : List Word}

theorem blank_cons (h : Reads cs words) {c : Char} (hc : isBlank c) : Reads (c :: cs) words := by
  have hone : Lexeme.gap.Written [c] := .blank (List.cons_ne_nil c []) (by simpa using hc)
  -- in front of anything but a blank run the character is a piece of its own
  have alone (h : Reads cs words) (hnext : ∀ d ∈ cs.head?, ¬isBlank d) : Reads (c :: cs) words := by
    refine .gap hone (fun d hd hpiece => hnext d hd ?_) h
    obtain ⟨lexeme, hwritten⟩ := hpiece
    generalize htext : [c] ++ [d] = text at hwritten
    cases lexeme with
    | token kind text =>
      obtain ⟨e, es, rfl, he, -⟩ := hwritten.front
      obtain ⟨rfl, -⟩ := List.cons.inj htext
      exact absurd hc he
    | gap =>
      cases hwritten with
      | blank _ hblanks => exact hblanks d (by simp [← htext])
      | comment _ =>
        obtain ⟨rfl, -⟩ := List.cons.inj htext
        exact absurd hc (by decide)
  cases h with
  | nil => exact alone .nil nofun
  | token hwritten hends hrest =>
    refine alone (.token hwritten hends hrest) ?_
    obtain ⟨d, ds, rfl, hd, -⟩ := hwritten.front
    simpa using hd
  | @gap piece rest _ hwritten hends hrest =>
    cases hwritten with
    | comment hline => exact alone (.gap (.comment hline) hends hrest) (by simp; decide)
    | blank hne hblanks =>
      have hrun : Lexeme.gap.Written (c :: piece) :=
        .blank (List.cons_ne_nil c piece) (List.forall_mem_cons.2 ⟨hc, hblanks⟩)
      refine .gap hrun (fun d hd hpiece => hends d hd ⟨.gap, .blank (by simp) ?_⟩) hrest
      obtain ⟨lexeme, hwritten⟩ := hpiece
      generalize htext : c :: piece ++ [d] = text at hwritten
      cases lexeme with
      | token kind text =>
        obtain ⟨e, es, rfl, he, -⟩ := hwritten.front
        obtain ⟨rfl, -⟩ := List.cons.inj htext
        exact absurd hc he
      | gap =>
        cases hwritten with
        | blank _ hall =>
          intro e he
          refine hall e ?_
          rw [← htext]
          exact List.mem_cons_of_mem c he
        | comment _ =>
          obtain ⟨rfl, -⟩ := List.cons.inj htext
          exact absurd hc (by decide)

/-- Blank characters in front of a text change none of its words. -/
theorem blanks (h : Reads cs words) {blanks : List Char} (hblanks : ∀ c ∈ blanks, isBlank c) :
    Reads (blanks ++ cs) words := by
  induction blanks with
  | nil => exact h
  | cons c blanks ih =>
    obtain ⟨hc, hblanks⟩ := List.forall_mem_cons.1 hblanks
    exact (ih hblanks).blank_cons hc

theorem comment (h : Reads rest words) {piece : List Char} (hline : ∀ c ∈ piece, c ≠ '\n')
    (hnext : ∀ c ∈ rest.head?, c = '\n') : Reads ('/' :: '/' :: piece ++ rest) words := by
  refine .gap (.comment hline) (fun c hc ⟨_, hwritten⟩ => ?_) h
  have hall : ∀ d ∈ piece ++ [c], d ≠ '\n' := hwritten.comment_inv
  exact hall c (List.mem_append_right _ (List.mem_singleton_self c)) (hnext c hc)

/-- A comment takes in what is added behind it on its line. -/
theorem comment_line {piece : List Char} (hline : ∀ c ∈ piece, c ≠ '\n')
    (h : Reads (rest.dropWhile (· ≠ '\n')) words) :
    Reads ('/' :: '/' :: piece ++ rest) words := by
  have htaken : ∀ c ∈ piece ++ rest.takeWhile (· ≠ '\n'), c ≠ '\n' := by
    intro c hc
    obtain hc | hc := List.mem_append.1 hc
    · exact hline c hc
    · simpa using all_takeWhile c hc
  have hnext : ∀ c ∈ (rest.dropWhile (· ≠ '\n')).head?, c = '\n' := by
    intro c hc
    have hstops := List.head?_dropWhile_not (fun c => decide (c ≠ '\n')) rest
    rw [Option.mem_def.1 hc] at hstops
    simpa using hstops
  have hwhole := h.comment htaken hnext
  have htext : piece ++ rest.takeWhile (· ≠ '\n') ++ rest.dropWhile (· ≠ '\n') = piece ++ rest := by
    rw [List.append_assoc, List.takeWhile_append_dropWhile]
  rw [List.cons_append, List.cons_append, htext] at hwhole
  exact hwhole

end Reads

namespace Skipped

variable {rest rest' gap blanks : List Char} {words : List Word}

theorem reads (h : Skipped rest gap) (hrest : Reads rest words) : Reads (gap ++ rest) words := by
  induction h with
  | nil => exact hrest
  | blank hblanks _ ih =>
    rw [List.append_assoc]
    exact ih.blanks hblanks
  | comment hline hnext _ ih =>
    rw [List.append_assoc]
    exact ih.comment hline hnext

/-- In front of a token no comment ends a gap, so what follows the gap may be anything. -/
theorem anywhere {c : Char} (h : Skipped (c :: rest) gap) (hc : c ≠ '\n') (rest' : List Char) :
    Skipped rest' gap := by
  induction h with
  | nil => exact .nil
  | blank hblanks _ ih => exact .blank hblanks ih
  | @comment piece more hline hnext _ ih =>
    refine .comment hline ?_ ih
    cases more with
    | nil => exact absurd (hnext c rfl) hc
    | cons d more => exact hnext

/-- At the end of a text blank characters may be added behind the last gap. -/
theorem reads_end (h : Skipped [] gap) (hblanks : ∀ c ∈ blanks, isBlank c) :
    Reads (gap ++ blanks) [] := by
  have hend {blanks : List Char} (hblanks : ∀ c ∈ blanks, isBlank c) : Reads blanks [] := by
    simpa using Reads.nil.blanks hblanks
  induction h with
  | nil => exact hend hblanks
  | blank hpiece _ ih =>
    rw [List.append_assoc]
    exact ih.blanks hpiece
  | @comment piece more hline hnext _ ih =>
    rw [List.append_assoc]
    cases more with
    | nil =>
      refine .comment_line hline (hend fun c hc => hblanks c ?_)
      exact (List.dropWhile_sublist _).subset hc
    | cons d more => exact ih.comment hline hnext

end Skipped

/-! ### The tokens as they are read -/

section

variable {file : String} {before cs cs' : List Char} {tokens : List Token}

theorem Cut.behind_gap {gap : List Char} (hgap : Lexeme.gap.Written gap)
    (hends : EndsBefore gap cs) (h : Cut file (before ++ gap) cs tokens) :
    Cut file before (gap ++ cs) tokens := by
  have hmore {more rest : List Char} (hmore : Skipped rest more) (htext : cs = more ++ rest) :
      Skipped rest (gap ++ more) := by
    cases hgap with
    | blank _ hblanks => exact .blank hblanks hmore
    | comment hline =>
      refine .comment hline (fun c hc => Decidable.byContradiction fun hne => ?_) hmore
      refine hends c (htext ▸ hc) ⟨.gap, .comment fun d hd => ?_⟩
      obtain hd | hd := List.mem_append.1 hd
      · exact hline d hd
      · rw [List.mem_singleton.1 hd]
        exact hne
  cases h with
  | done hskipped =>
    rw [List.append_assoc]
    exact .done (hmore hskipped (List.append_nil cs).symm)
  | token hskipped hcovers hlexeme hrest =>
    rw [List.append_assoc before] at hcovers hrest
    rw [← List.append_assoc, ← List.append_assoc]
    exact .token (hmore hskipped (List.append_assoc ..)) hcovers hlexeme hrest

theorem cut_of_tokensFrom (h : tokensFrom (.behind file before) cs = .ok tokens) :
    Cut file before cs tokens := by
  induction cs using text_induction generalizing before tokens with
  | nil =>
    simp only [tokensFrom, Except.ok.injEq] at h
    have hcut : Cut file before [] [.endOfFile (.behind file (before ++ []))] := .done .nil
    simpa [h] using hcut
  | stuck c cs hscan =>
    rw [tokensFrom_stuck _ hscan] at h
    cases h
  | piece cs s hscan ih =>
    obtain ⟨hwritten, heq⟩ := written_of_scan? hscan
    have hends := endsBefore_of_scan? hscan
    rw [tokensFrom_piece _ hscan, advance_behind] at h
    cases hlexeme : s.lexeme with
    | gap =>
      rw [hlexeme] at h hwritten
      rw [heq]
      exact .behind_gap hwritten hends (ih h)
    | token kind text =>
      rw [hlexeme] at h hwritten
      cases hrest : tokensFrom (.behind file (before ++ s.taken)) s.rest with
      | error e => simp [hrest, Except.map] at h
      | ok ts =>
        simp only [hrest, Except.map, Except.ok.injEq] at h
        have hcut : Cut file (before ++ [] ++ s.taken) s.rest ts := by simpa using ih hrest
        rw [heq, ← h]
        exact .token .nil ⟨hwritten, by simp⟩ hends hcut

/-- A place in a text tells the characters in front of it. -/
theorem eq_of_behind {front front' back back' : List Char}
    (h : Position.behind file front = .behind file front')
    (htext : front ++ back = front' ++ back') : front = front' := by
  have empty {more : List Char} (hsize : (String.ofList more).utf8ByteSize = 0) : more = [] := by
    simpa using congrArg String.toList (String.utf8ByteSize_eq_zero_iff.1 hsize)
  have hsize : (String.ofList front).utf8ByteSize = (String.ofList front').utf8ByteSize :=
    congrArg Position.offset h
  obtain ⟨more, rfl⟩ | ⟨more, rfl⟩ :=
    List.prefix_or_prefix_of_prefix ⟨back, rfl⟩ (⟨back', htext.symm⟩ : front' <+: front ++ back)
  · rw [String.ofList_append, String.utf8ByteSize_append] at hsize
    have hempty : more = [] := empty (by omega)
    rw [hempty, List.append_nil]
  · rw [String.ofList_append, String.utf8ByteSize_append] at hsize
    have hempty : more = [] := empty (by omega)
    rw [hempty, List.append_nil]

/-- A gap that is changed begins with the same character or with a blank one. -/
theorem Respacing.head {gap gap' rest rest' : List Char} (h : Respacing gap gap')
    (hrest : rest'.head? = rest.head?) :
    (gap' ++ rest').head? = (gap ++ rest).head? ∨ ∃ c ∈ (gap' ++ rest').head?, isBlank c := by
  have blank_or_same {blanks more more' : List Char} (hblanks : ∀ c ∈ blanks, isBlank c)
      (hmore : more'.head? = more.head?) :
      (blanks ++ more').head? = more.head? ∨ ∃ c ∈ (blanks ++ more').head?, isBlank c := by
    cases blanks with
    | nil => exact .inl hmore
    | cons c blanks => exact .inr ⟨c, rfl, hblanks c List.mem_cons_self⟩
  cases h with
  | replaced hne hblanks =>
    obtain ⟨c, blanks, rfl⟩ := List.exists_cons_of_ne_nil hne
    exact .inr ⟨c, rfl, hblanks c List.mem_cons_self⟩
  | inFront hblanks =>
    rw [List.append_assoc]
    exact blank_or_same hblanks (by rw [List.head?_append, List.head?_append, hrest])
  | behind hblanks =>
    rw [List.append_assoc]
    cases gap with
    | nil =>
      rw [List.nil_append, List.nil_append]
      exact blank_or_same hblanks hrest
    | cons c gap => exact .inl rfl

/-- A gap that is changed is read over. -/
theorem Respacing.reads {gap gap' rest' : List Char} {words : List Word} (h : Respacing gap gap')
    (hgap : Skipped rest' gap) (hgap' : ∀ more, Skipped more gap ∨ rest' = [] ∧ words = [])
    (hrest : Reads rest' words) : Reads (gap' ++ rest') words := by
  cases h with
  | replaced _ hblanks => exact hrest.blanks hblanks
  | inFront hblanks =>
    rw [List.append_assoc]
    exact (hgap.reads hrest).blanks hblanks
  | @behind blanks hblanks =>
    obtain hgap' | ⟨rfl, rfl⟩ := hgap' (blanks ++ rest')
    · rw [List.append_assoc]
      exact hgap'.reads (hrest.blanks hblanks)
    · rw [List.append_nil]
      exact hgap.reads_end hblanks

/-- With other spacing the same words are read, and what follows a token still does not go on
with it. -/
theorem Cut.respaced (h : Cut file before cs tokens) (h' : Respaced file before cs tokens cs') :
    (cs'.head? = cs.head? ∨ ∃ c ∈ cs'.head?, isBlank c) ∧
      ∃ words, Reads cs' words ∧ tokens.map Token.word = words ++ [.endOfFile] := by
  induction h generalizing cs' with
  | @done before gap hskipped =>
    generalize htokens : [Token.endOfFile (.behind file (before ++ gap))] = tokens at h'
    cases h' with
    | done hgap =>
      have hhead := @Respacing.head _ _ [] [] hgap rfl
      have hreads := hgap.reads hskipped (fun _ => .inr ⟨rfl, rfl⟩) .nil
      rw [List.append_nil, List.append_nil] at hhead
      rw [List.append_nil] at hreads
      exact ⟨hhead, [], hreads, by rw [← htokens]; rfl⟩
    | token _ hcovers _ =>
      obtain ⟨rfl, -⟩ := List.cons.inj htokens
      exact absurd rfl hcovers.written.kind_ne_endOfFile
  | @token before gap lexeme rest t ts hskipped hcovers hends _ ih =>
    generalize htext : gap ++ lexeme ++ rest = cs at h'
    cases h' with
    | done _ => exact absurd rfl hcovers.written.kind_ne_endOfFile
    | @token _ gap₂ gap' lexeme₂ rest₂ rest' _ _ hgap hcovers₂ hrest =>
      -- both splittings of the text put the token where its span says
      have hspan := hcovers.span.symm.trans hcovers₂.span
      have htext' : before ++ gap ++ (lexeme ++ rest) = before ++ gap₂ ++ (lexeme₂ ++ rest₂) := by
        simpa using htext
      obtain rfl := List.append_cancel_left (eq_of_behind (Span.mk.inj hspan).1 htext')
      have hlexeme : before ++ gap ++ lexeme ++ rest = before ++ gap ++ lexeme₂ ++ rest₂ := by
        simpa using htext
      obtain rfl := List.append_cancel_left (eq_of_behind (Span.mk.inj hspan).2 hlexeme)
      obtain rfl := List.append_cancel_left htext
      obtain ⟨hhead, words, hreads, hwords⟩ := ih hrest
      have hwhole : Reads (lexeme ++ rest') ((t.kind, t.text) :: words) :=
        .token hcovers.written (hends.respaced hcovers.written hhead) hreads
      obtain ⟨c, lexeme, rfl, hc, -⟩ := hcovers.written.front
      have hline : c ≠ '\n' := by
        rintro rfl
        exact hc (by decide)
      have hskipped' := hskipped.anywhere hline
      rw [List.append_assoc, List.append_assoc]
      refine ⟨hgap.head rfl, _, hgap.reads (hskipped' _) (fun more => .inl (hskipped' more)) hwhole,
        ?_⟩
      rw [List.map_cons, hwords]
      rfl

/-- A token in the text, with what follows it. -/
theorem Cut.covers (h : Cut file before cs tokens) {t : Token} (ht : t ∈ tokens)
    (hkind : t.kind ≠ .endOfFile) : ∃ front lexeme rest, cs = front ++ lexeme ++ rest ∧
      t.Covers file (before ++ front) lexeme ∧ EndsBefore lexeme rest := by
  induction h with
  | done =>
    rw [List.mem_singleton.1 ht] at hkind
    exact absurd rfl hkind
  | @token before gap lexeme rest u ts _ hcovers hends _ ih =>
    obtain rfl | ht := List.mem_cons.1 ht
    · exact ⟨gap, lexeme, rest, rfl, hcovers, hends⟩
    · obtain ⟨front, lexeme', rest', rfl, hcovers', hends'⟩ := ih ht
      exact ⟨gap ++ lexeme ++ front, lexeme', rest', by simp, by simpa using hcovers', hends'⟩

/-- Every token is the longest piece at its place, and none is read where a comment begins. Other
spacing yields tokens of the same kinds and texts. -/
theorem tokenize_spacing {source : String} (h : tokenize source file = .ok tokens) :
    (∀ t ∈ tokens, t.kind ≠ .endOfFile → ∃ front lexeme rest,
      source.toList = front ++ lexeme ++ rest ∧ t.Covers file front lexeme ∧
        LongestPiece (lexeme ++ rest) lexeme ∧ ¬['/', '/'] <+: lexeme ++ rest) ∧
    ∀ source' : String, Respaced file [] source.toList tokens source'.toList →
      ∃ tokens', tokenize source' file = .ok tokens' ∧
        tokens'.map Token.word = tokens.map Token.word := by
  have hstart : tokenize source file = tokensFrom (.behind file []) source.toList := by
    simp [tokenize, Position.start, Position.behind]
  have hcut := cut_of_tokensFrom (hstart ▸ h)
  constructor
  · intro t ht hkind
    obtain ⟨front, lexeme, rest, htext, hcovers, hends⟩ := hcut.covers ht hkind
    exact ⟨front, lexeme, rest, htext, hcovers,
      longestPiece_of_scan? (scan?_append hcovers.written hends),
      not_comment_of_endsBefore hcovers.written hends⟩
  · intro source' hrespaced
    obtain ⟨-, words, hreads, hwords⟩ := hcut.respaced hrespaced
    rw [hwords]
    exact tokenize_of_reads hreads file

end

/-- Before each token of `x->y//z` stand blank characters, and one in place of the comment. -/
theorem tokenize_spacing_of_arrow :
    let source := "x->y//z"
    let source' := "\n x ->\ty "
    ∃ tokens, tokenize source "main" = .ok tokens ∧
      Respaced "main" [] source.toList tokens source'.toList ∧
      (∀ t ∈ tokens, t.kind ≠ .endOfFile → ∃ front lexeme rest,
        source.toList = front ++ lexeme ++ rest ∧ t.Covers "main" front lexeme ∧
          LongestPiece (lexeme ++ rest) lexeme ∧ ¬['/', '/'] <+: lexeme ++ rest) ∧
      ∃ tokens', tokenize source' "main" = .ok tokens' ∧
        tokens'.map Token.word = tokens.map Token.word := by
  intro source source'
  let x : Token := ⟨.identifier, "x", ⟨⟨0, 1, "main"⟩, ⟨1, 1, "main"⟩⟩⟩
  let arrow : Token := ⟨.arrow, "->", ⟨⟨1, 1, "main"⟩, ⟨3, 1, "main"⟩⟩⟩
  let y : Token := ⟨.identifier, "y", ⟨⟨3, 1, "main"⟩, ⟨4, 1, "main"⟩⟩⟩
  have htokens : tokenize source "main" = .ok [x, arrow, y, .endOfFile ⟨7, 1, "main"⟩] := by
    decide +kernel
  have hx : x.Covers "main" [] ['x'] :=
    ⟨@Lexeme.Written.word 'x' [] (by decide) (by decide), rfl⟩
  have harrow : arrow.Covers "main" ['x'] ['-', '>'] :=
    ⟨@Lexeme.Written.mark ['-', '>'] .arrow (by decide), rfl⟩
  have hy : y.Covers "main" ['x', '-', '>'] ['y'] :=
    ⟨@Lexeme.Written.word 'y' [] (by decide) (by decide), rfl⟩
  have hend : Respaced "main" ['x', '-', '>', 'y'] ['/', '/', 'z']
      [.endOfFile ⟨7, 1, "main"⟩] [' '] :=
    .done (.replaced (by decide) (by decide))
  have hblank : Respacing [] [' '] := .replaced (by decide) (by decide)
  have htab : Respacing [] ['\t'] := .replaced (by decide) (by decide)
  have hline : Respacing [] ['\n', ' '] := .replaced (by decide) (by decide)
  have hlast := @Respaced.token "main" ['x', '-', '>'] [] ['\t'] ['y'] _ _ _ _ htab hy hend
  have hmiddle := @Respaced.token "main" ['x'] [] [' '] ['-', '>'] _ _ _ _ hblank harrow hlast
  have hfirst := @Respaced.token "main" [] [] ['\n', ' '] ['x'] _ _ _ _ hline hx hmiddle
  have hrespaced : Respaced "main" [] source.toList [x, arrow, y, .endOfFile ⟨7, 1, "main"⟩]
      source'.toList := by
    simpa [source, source'] using hfirst
  obtain ⟨hcovers, hspacing⟩ := tokenize_spacing htokens
  exact ⟨_, htokens, hrespaced, hcovers, hspacing source' hrespaced⟩

end Script

import Script.Token.Lexer

/-!
# The pieces of a text

How each lexeme may be written, one way for each pattern of the language, said without reading
anything. A text is cut by taking the longest such piece from its front.

The reader looks at the first character and takes the first pattern that fits. That is the longest
piece all the same. Pieces of different patterns begin with different characters, but for a comment
and the marks that begin with a slash, and of these the comment is longer and tried first; among the
marks the longer ones come first.
-/

namespace Script

/-- What may stand between the quotes of a string literal: characters other than quotes, backslashes
and newlines, and backslashes each with the character behind it, which is no newline. -/
inductive StringLiteral.Body : List Char → Prop
  | nil : Body []
  | plain {c : Char} {cs : List Char} : c ≠ '"' → c ≠ '\\' → c ≠ '\n' → Body cs → Body (c :: cs)
  | escaped {c : Char} {cs : List Char} : c ≠ '\n' → Body cs → Body ('\\' :: c :: cs)

/-- The characters that a lexeme may be written with. -/
inductive Lexeme.Written : Lexeme → List Char → Prop
  | word {c : Char} {cs : List Char} : isWordStart c → (∀ d ∈ cs, isWordPart d) →
    Written (.token (.ofWord (String.ofList (c :: cs))) (String.ofList (c :: cs))) (c :: cs)
  | number {cs : List Char} : cs ≠ [] → (∀ c ∈ cs, c.isDigit) →
    Written (.token .number (String.ofList cs)) cs
  | literal {raw : List Char} : StringLiteral.Body raw →
    Written (.token .string (String.ofList (StringLiteral.decode raw))) ('"' :: raw ++ ['"'])
  | mark {mark : List Char} {kind : TokenKind} : (mark, kind) ∈ TokenKind.marks →
    Written (.token kind (String.ofList mark)) mark
  | blank {cs : List Char} : cs ≠ [] → (∀ c ∈ cs, isBlank c) → Written .gap cs
  | comment {cs : List Char} : (∀ c ∈ cs, c ≠ '\n') → Written .gap ('/' :: '/' :: cs)

/-- A word, a run of digits, a string literal, a mark, a blank run or a comment. -/
def IsPiece (cs : List Char) : Prop := ∃ lexeme : Lexeme, lexeme.Written cs

/-- The longest piece that a text begins with. -/
structure LongestPiece (cs piece : List Char) : Prop where
  isPrefix : piece <+: cs
  isPiece : IsPiece piece
  longest : ∀ other, other <+: cs → IsPiece other → other.length ≤ piece.length

/-! ### Classes of characters -/

theorem isWordPart_of_isWordStart {c : Char} (h : isWordStart c) : isWordPart c := by
  simp only [isWordStart, isWordPart, Char.isAlphanum, Bool.or_eq_true] at h ⊢
  exact h.imp_left Or.inl

theorem isDigit_iff {c : Char} : c.isDigit ↔ 48 ≤ c.toNat ∧ c.toNat ≤ 57 := by
  simp only [Char.isDigit, ge_iff_le, Bool.and_eq_true, decide_eq_true_eq, UInt32.le_iff_toNat_le]
  rfl

theorem isWordStart_iff {c : Char} :
    isWordStart c ↔ (65 ≤ c.toNat ∧ c.toNat ≤ 90) ∨ (97 ≤ c.toNat ∧ c.toNat ≤ 122) ∨ c = '_' := by
  change (decide (c.val ≥ 'A'.val ∧ c.val ≤ 'Z'.val) ||
    decide (c.val ≥ 'a'.val) && decide (c.val ≤ 'z'.val) || c == '_') = true ↔ _
  simp only [ge_iff_le, Bool.or_eq_true, Bool.and_eq_true, decide_eq_true_eq,
    UInt32.le_iff_toNat_le, beq_iff_eq, or_assoc]
  rfl

theorem not_isWordStart_of_isDigit {c : Char} (h : c.isDigit) : ¬isWordStart c := by
  rw [isDigit_iff] at h
  rw [isWordStart_iff]
  rintro (h' | h' | rfl)
  · omega
  · omega
  · simp at h

theorem not_isWordStart_of_isBlank {c : Char} (h : isBlank c) : ¬isWordStart c := by
  have hc := toNat_of_isBlank h
  rw [isWordStart_iff]
  rintro (h' | h' | rfl)
  · omega
  · omega
  · simp at hc

theorem not_isDigit_of_isBlank {c : Char} (h : isBlank c) : ¬c.isDigit := by
  have hc := toNat_of_isBlank h
  rw [isDigit_iff]
  omega

/-! ### String literals -/

namespace StringLiteral

theorem split?_append {raw : List Char} (h : Body raw) (rest : List Char) :
    split? (raw ++ '"' :: rest) = some (raw, rest) := by
  induction h with
  | nil => rfl
  | plain hquote hslash hline _ ih => simp [split?, hslash, hline, ih]
  | escaped hline _ ih => simp [split?, hline, ih]

theorem body_of_split? {cs raw rest : List Char} (h : split? cs = some (raw, rest)) :
    Body raw ∧ cs = raw ++ '"' :: rest := by
  fun_induction split? cs generalizing raw rest with
  | case1 => simp at h
  | case2 =>
    simp only [Option.some.injEq, Prod.mk.injEq] at h
    obtain ⟨rfl, rfl⟩ := h
    exact ⟨.nil, rfl⟩
  | case3 => simp at h
  | case4 c tail hc ih =>
    obtain ⟨⟨raw', rest'⟩, hsplit, heq⟩ := Option.map_eq_some_iff.1 h
    simp only [Prod.mk.injEq] at heq
    obtain ⟨rfl, rfl⟩ := heq
    obtain ⟨hbody, rfl⟩ := ih hsplit
    exact ⟨.escaped hc hbody, rfl⟩
  | case5 => simp at h
  | case6 c tail hquote _ hc ih =>
    obtain ⟨⟨raw', rest'⟩, hsplit, heq⟩ := Option.map_eq_some_iff.1 h
    simp only [Prod.mk.injEq] at heq
    obtain ⟨rfl, rfl⟩ := heq
    obtain ⟨hbody, rfl⟩ := ih hsplit
    rw [not_or] at hc
    exact ⟨.plain hquote hc.1 hc.2 hbody, rfl⟩

theorem Body.not_mem_newline {raw : List Char} (h : Body raw) : '\n' ∉ raw := by
  induction h with
  | nil => simp
  | plain _ _ hline _ ih => simp [ih, Ne.symm hline]
  | escaped hline _ ih => simp [ih, Ne.symm hline]

end StringLiteral

/-! ### Marks -/

/-- A mark begins with a character that no other piece begins with, but for the slash. -/
theorem mark_head {mark : List Char} {kind : TokenKind} (h : (mark, kind) ∈ TokenKind.marks) :
    ∃ c cs, mark = c :: cs ∧ ¬isWordStart c ∧ ¬c.isDigit ∧ ¬isBlank c ∧ c ≠ '"' ∧ c ≠ '\n' ∧
      '\n' ∉ cs ∧ cs.length ≤ 1 := by
  have hall : ∀ entry ∈ TokenKind.marks, (entry.1.head?.any fun c =>
      !isWordStart c && !c.isDigit && !isBlank c && c != '"' && c != '\n') ∧
      '\n' ∉ entry.1.tail ∧ entry.1.tail.length ≤ 1 := by
    decide
  have hentry := hall _ h
  cases mark with
  | nil => simp at hentry
  | cons c cs =>
    simp only [List.head?_cons, Option.any_some, Bool.and_eq_true, Bool.not_eq_true', bne_iff_ne,
      List.tail_cons] at hentry
    exact ⟨c, cs, rfl, by simp [hentry]⟩

/-- The longer marks stand before the shorter ones. -/
theorem find?_longest (fits : List Char → Bool) {entry : List Char × TokenKind}
    (h : entry ∈ TokenKind.marks) (hfits : fits entry.1) :
    ∃ found, TokenKind.marks.find? (fun entry => fits entry.1) = some found ∧
      entry.1.length ≤ found.1.length := by
  have hsorted : TokenKind.marks.Pairwise fun a b => b.1.length ≤ a.1.length := by decide
  cases hfind : TokenKind.marks.find? fun entry => fits entry.1 with
  | none => exact absurd hfits (List.find?_eq_none.1 hfind _ h)
  | some found =>
    refine ⟨found, rfl, ?_⟩
    obtain ⟨-, before, after, hmarks, hbefore⟩ := List.find?_eq_some_iff_append.1 hfind
    rw [hmarks] at h hsorted
    obtain hmem | hmem := List.mem_append.1 h
    · exact absurd (hbefore _ hmem) (by simpa using hfits)
    · obtain rfl | hmem := List.mem_cons.1 hmem
      · exact Nat.le_refl _
      · exact List.rel_of_pairwise_cons (List.pairwise_append.1 hsorted).2.1 hmem

/-- The mark that is found is the longest one that the text begins with. -/
theorem mark?_longest {cs mark : List Char} {kind : TokenKind}
    (h : (mark, kind) ∈ TokenKind.marks) (hfront : mark <+: cs) :
    ∃ s, Scan.mark? cs = some s ∧ mark.length ≤ s.taken.length := by
  unfold Scan.mark?
  obtain ⟨found, hfind, hlength⟩ :=
    find?_longest (fun mark => mark.isPrefixOf cs) h (List.isPrefixOf_iff_prefix.2 hfront)
  exact ⟨_, congrArg (Option.map _) hfind, hlength⟩

/-! ### The reader takes the longest piece -/

theorem length_le_takeWhile {part : Char → Bool} {piece cs : List Char} (hfront : piece <+: cs)
    (hpart : ∀ c ∈ piece, part c) : piece.length ≤ (cs.takeWhile part).length := by
  obtain ⟨rest, rfl⟩ := hfront
  rw [List.takeWhile_append_of_pos hpart, List.length_append]
  exact Nat.le_add_right ..

/-- What a text begins with is read, or something longer. -/
theorem scan?_of_written {lexeme : Lexeme} {piece cs : List Char} (h : lexeme.Written piece)
    (hfront : piece <+: cs) : ∃ s, scan? cs = some s ∧ piece.length ≤ s.taken.length := by
  obtain ⟨rest, rfl⟩ := hfront
  cases h with
  | @word c cs hstart hparts =>
    refine ⟨_, by rw [List.cons_append, scan?, if_pos hstart], ?_⟩
    apply length_le_takeWhile (List.prefix_append ..)
    simpa [isWordPart_of_isWordStart hstart] using hparts
  | @number _ hne hdigits =>
    obtain ⟨c, cs, rfl⟩ := List.exists_cons_of_ne_nil hne
    have hdigit := hdigits c (by simp)
    refine ⟨_, by rw [List.cons_append, scan?, if_neg (not_isWordStart_of_isDigit hdigit),
      if_pos hdigit], ?_⟩
    exact length_le_takeWhile (List.prefix_append ..) hdigits
  | @literal raw hbody =>
    have hsplit := StringLiteral.split?_append hbody rest
    have htext : '"' :: raw ++ ['"'] ++ rest = '"' :: (raw ++ '"' :: rest) := by simp
    refine ⟨_, by rw [htext, scan?, if_neg (by decide), if_neg (by decide), if_neg (by decide),
      if_pos rfl, Scan.literal?, hsplit]; rfl, ?_⟩
    exact Nat.le_refl _
  | @mark _ kind hmark =>
    obtain ⟨c, cs, rfl, hword, hdigit, hblank, hquote, -, -, hlength⟩ := mark_head hmark
    rw [List.cons_append, scan?, if_neg hword, if_neg hdigit, if_neg hblank, if_neg hquote]
    split
    · next hslash =>
      -- behind two slashes everything belongs to the comment, and no mark is longer than these
      obtain ⟨rfl, hhead⟩ := hslash
      obtain ⟨tail, htail⟩ : ∃ tail, cs ++ rest = '/' :: tail := by
        cases h : cs ++ rest with
        | nil => simp [h] at hhead
        | cons d tail => exact ⟨tail, by simpa [h] using hhead⟩
      refine ⟨_, rfl, ?_⟩
      simp only [Scan.comment, Scan.run, htail, List.length_cons]
      simp
      omega
    · exact mark?_longest hmark (List.prefix_append ..)
  | @blank _ hne hblanks =>
    obtain ⟨c, cs, rfl⟩ := List.exists_cons_of_ne_nil hne
    have hblank := hblanks c (by simp)
    refine ⟨_, by rw [List.cons_append, scan?, if_neg (not_isWordStart_of_isBlank hblank),
      if_neg (not_isDigit_of_isBlank hblank), if_pos hblank], ?_⟩
    exact length_le_takeWhile (List.prefix_append ..) hblanks
  | @comment cs hline =>
    refine ⟨_, by rw [List.cons_append, List.cons_append, scan?, if_neg (by decide),
      if_neg (by decide), if_neg (by decide), if_neg (by decide), if_pos (by simp)], ?_⟩
    change _ ≤ (('/' :: '/' :: cs ++ rest).takeWhile (· ≠ '\n')).length
    exact length_le_takeWhile (List.prefix_append ..) (by simpa using hline)

theorem all_takeWhile {part : Char → Bool} {cs : List Char} : ∀ c ∈ cs.takeWhile part, part c :=
  List.all_eq_true.1 List.all_takeWhile

theorem takeWhile_ne_nil {part : Char → Bool} {c : Char} {cs : List Char} (h : part c) :
    (c :: cs).takeWhile part ≠ [] := by
  simp [h]

theorem eq_run (part : Char → Bool) (lexeme : List Char → Lexeme) (cs : List Char) :
    cs = (Scan.run part lexeme cs).taken ++ (Scan.run part lexeme cs).rest :=
  List.takeWhile_append_dropWhile.symm

/-- What is read is a piece at the front of the text. -/
theorem written_of_scan? {cs : List Char} {s : Scan} (h : scan? cs = some s) :
    s.lexeme.Written s.taken ∧ cs = s.taken ++ s.rest := by
  cases cs with
  | nil => simp [scan?] at h
  | cons c cs =>
    rw [scan?] at h
    split at h
    · next hstart =>
      cases h
      refine ⟨?_, eq_run ..⟩
      have hpart := isWordPart_of_isWordStart hstart
      simp only [Scan.word, Scan.run, List.takeWhile_cons, hpart, if_true]
      exact .word hstart all_takeWhile
    split at h
    · next hdigit =>
      cases h
      exact ⟨.number (takeWhile_ne_nil hdigit) all_takeWhile, eq_run ..⟩
    split at h
    · next hblank =>
      cases h
      exact ⟨.blank (takeWhile_ne_nil hblank) all_takeWhile, eq_run ..⟩
    split at h
    · next hquote =>
      obtain ⟨⟨raw, rest⟩, hsplit, rfl⟩ := Option.map_eq_some_iff.1 h
      obtain ⟨hbody, rfl⟩ := StringLiteral.body_of_split? hsplit
      exact ⟨.literal hbody, by simp [hquote]⟩
    split at h
    · next hslash =>
      cases h
      refine ⟨?_, eq_run ..⟩
      obtain ⟨rfl, hhead⟩ := hslash
      obtain ⟨tail, rfl⟩ : ∃ tail, cs = '/' :: tail := by
        cases cs with
        | nil => simp at hhead
        | cons d tail => exact ⟨tail, by simpa using hhead⟩
      simp only [Scan.comment, Scan.run, List.takeWhile_cons]
      exact Lexeme.Written.comment fun c hc => by simpa using all_takeWhile c hc
    · obtain ⟨⟨mark, kind⟩, hfind, rfl⟩ := Option.map_eq_some_iff.1 h
      have hfront : mark <+: c :: cs := by simpa using List.find?_some hfind
      exact ⟨.mark (List.mem_of_find?_eq_some hfind), (List.prefix_iff_eq_append.1 hfront).symm⟩

/-- What the reader takes is the longest piece that the text begins with. -/
theorem longestPiece_of_scan? {cs : List Char} {s : Scan} (h : scan? cs = some s) :
    LongestPiece cs s.taken where
  isPrefix := (written_of_scan? h).2 ▸ List.prefix_append ..
  isPiece := ⟨_, (written_of_scan? h).1⟩
  longest other hfront := fun ⟨_, hwritten⟩ => by
    obtain ⟨s', hs', hlength⟩ := scan?_of_written hwritten hfront
    rw [h, Option.some.injEq] at hs'
    exact hs' ▸ hlength

/-- Where nothing is read no piece begins. -/
theorem scan?_eq_none_iff {cs : List Char} :
    scan? cs = none ↔ ∀ piece, piece <+: cs → ¬IsPiece piece := by
  refine ⟨fun h piece hfront ⟨_, hwritten⟩ => ?_, fun h => ?_⟩
  · obtain ⟨s, hs, -⟩ := scan?_of_written hwritten hfront
    rw [h] at hs
    cases hs
  · cases hscan : scan? cs with
    | none => rfl
    | some s =>
      have hlongest := longestPiece_of_scan? hscan
      exact absurd hlongest.isPiece (h _ hlongest.isPrefix)

/-- A text begins with at most one longest piece. -/
theorem LongestPiece.unique {cs piece other : List Char} (h : LongestPiece cs piece)
    (h' : LongestPiece cs other) : piece = other :=
  List.IsPrefix.eq_of_length (List.prefix_of_prefix_length_le h.isPrefix h'.isPrefix
    (h'.longest _ h.isPrefix h.isPiece))
    (Nat.le_antisymm (h'.longest _ h.isPrefix h.isPiece) (h.longest _ h'.isPrefix h'.isPiece))

end Script

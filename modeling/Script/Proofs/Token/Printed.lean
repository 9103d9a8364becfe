import Script.Proofs.Token.Literals
import Script.Proofs.Token.Spacing

/-!
# What is printed is read

The texts that values are shown with are tokens again: a quoted text is a literal, as long as it
needs no escape that literals do not have, and a numeral is a number. In front of what can follow a
value in a list, each of them ends where it was meant to.
-/

namespace Script

/-- A character that a quoted text shows by itself, or with an escape that literals have too. -/
def ShownPlainly (c : Char) : Prop :=
  quotedChar c = [c] ∨ c ∈ ['"', '\\', '\n', '\r', '\t', '\x00']

instance (c : Char) : Decidable (ShownPlainly c) :=
  inferInstanceAs (Decidable (_ ∨ _))

/-- What can follow a value in a list or a statement. -/
def Closes (rest : List Char) : Prop :=
  ∀ c ∈ rest.head?, c ∈ [',', ']', ';']

/-! ### Literals and numerals -/

/-- The escapes of quoted texts are those of literals. -/
theorem ShownPlainly.cases {c : Char} (h : ShownPlainly c) :
    (quotedChar c = [c] ∧ c ≠ '"' ∧ c ≠ '\\' ∧ c ≠ '\n') ∨
      ∃ d, quotedChar c = ['\\', d] ∧ d ≠ '\n' ∧ StringLiteral.named? d = some c := by
  by_cases hescaped : c ∈ ['"', '\\', '\n', '\r', '\t', '\x00']
  · right
    simp only [List.mem_cons, List.not_mem_nil, or_false] at hescaped
    obtain rfl | rfl | rfl | rfl | rfl | rfl := hescaped <;> exact ⟨_, rfl, by decide, rfl⟩
  · left
    simp only [List.mem_cons, List.not_mem_nil, or_false, not_or] at hescaped
    exact ⟨h.resolve_right (by simpa using hescaped), hescaped.1, hescaped.2.1, hescaped.2.2.1⟩

theorem literal_of_quoted {cs : List Char} (h : ∀ c ∈ cs, ShownPlainly c) :
    StringLiteral.Body (cs.flatMap quotedChar) ∧
      StringLiteral.decode (cs.flatMap quotedChar) = cs := by
  induction cs with
  | nil => exact ⟨.nil, rfl⟩
  | cons c cs ih =>
    obtain ⟨hc, hcs⟩ := List.forall_mem_cons.1 h
    obtain ⟨hbody, hdecode⟩ := ih hcs
    rw [List.flatMap_cons]
    obtain ⟨hraw, hquote, hslash, hline⟩ | ⟨d, hescape, hline, hnamed⟩ := hc.cases
    · rw [hraw, List.singleton_append, StringLiteral.decode_plain hslash, hdecode]
      exact ⟨.plain hquote hslash hline hbody, rfl⟩
    · rw [hescape, List.cons_append, List.singleton_append, StringLiteral.decode_named hnamed,
        hdecode]
      exact ⟨.escaped hline hbody, rfl⟩

theorem written_quote {s : String} (h : ∀ c ∈ s.toList, ShownPlainly c) :
    (Lexeme.token .string s).Written (quote s).toList := by
  obtain ⟨hbody, hdecode⟩ := literal_of_quoted h
  have hwritten := Lexeme.Written.literal hbody
  rw [hdecode, String.ofList_toList] at hwritten
  simpa [quote, quotedChars] using hwritten

theorem written_repr (n : Nat) : (Lexeme.token .number n.repr).Written n.repr.toList := by
  have hdigits : ∀ c ∈ n.repr.toList, c.isDigit := by
    rw [Nat.toList_repr]
    exact fun c hc => Nat.isDigit_of_mem_toDigits (by decide) (by decide) hc
  have hne : n.repr.toList ≠ [] := by
    rw [Nat.toList_repr]
    exact Nat.toDigits_ne_nil
  have hwritten := Lexeme.Written.number hne hdigits
  rwa [String.ofList_toList] at hwritten

/-- A number is written in digits. -/
theorem Lexeme.Written.digits {kind : TokenKind} {text : String} {piece : List Char}
    (h : (Lexeme.token kind text).Written piece) (hkind : kind = .number) :
    text.toList ≠ [] ∧ text.toList.all Char.isDigit := by
  cases h with
  | word =>
    unfold TokenKind.ofWord at hkind
    split at hkind <;> cases hkind
  | number hne hdigits =>
    rw [String.toList_ofList]
    exact ⟨hne, List.all_eq_true.2 hdigits⟩
  | literal => cases hkind
  | mark hmark =>
    have hall : ∀ entry ∈ TokenKind.marks, entry.2 ≠ .number := by decide
    exact absurd hkind (hall _ hmark)

/-! ### Where a token ends -/

theorem Lexeme.Written.endsBefore_of_closes {kind : TokenKind} {text : String}
    {piece rest : List Char} (h : (Lexeme.token kind text).Written piece) (hrest : Closes rest) :
    EndsBefore piece rest := by
  have hall : ∀ c ∈ [',', ']', ';'], ¬isWordPart c ∧ c ≠ '"' ∧ c ≠ '/' ∧
      ∀ entry ∈ TokenKind.marks, c ∉ entry.1.tail := by
    decide
  intro c hc
  obtain ⟨hword, hquote, hslash, hmark⟩ := hall c (hrest c hc)
  exact h.not_isPiece hword hquote hslash hmark

/-- A mark that is no slash ends where no longer mark goes on. -/
theorem endsBefore_mark {mark rest : List Char} {kind : TokenKind}
    (h : (mark, kind) ∈ TokenKind.marks) (hslash : mark.head? ≠ some '/')
    (hnext : ∀ d ∈ rest.head?, ∀ entry ∈ TokenKind.marks, entry.1 ≠ mark ++ [d]) :
    EndsBefore mark rest := by
  obtain ⟨c, cs, rfl, hword, hdigit, hblank, hquote, -⟩ := mark_head h
  rintro d hd ⟨lexeme, hwritten⟩
  generalize htext : c :: cs ++ [d] = piece at hwritten
  cases hwritten with
  | word hstart _ =>
    obtain ⟨rfl, -⟩ := List.cons.inj htext
    exact hword hstart
  | number _ hdigits =>
    subst htext
    exact hdigit (hdigits c List.mem_cons_self)
  | literal _ => exact hquote (List.cons.inj htext).1
  | mark hentry => exact hnext d hd _ hentry htext.symm
  | blank _ hblanks =>
    subst htext
    exact hblank (hblanks c List.mem_cons_self)
  | comment _ => exact hslash (congrArg some (List.cons.inj htext).1)

namespace Reads

variable {cs : List Char} {words : List Word}

/-- The marks of lists and statements are read in front of anything. -/
theorem mark {c : Char} {kind : TokenKind} (h : ([c], kind) ∈ TokenKind.marks)
    (hc : c ∈ ['[', ']', ',', ';']) (hrest : Reads cs words) :
    Reads (c :: cs) ((kind, String.ofList [c]) :: words) := by
  have hall : ∀ c ∈ ['[', ']', ',', ';'], c ≠ '/' ∧
      ∀ entry ∈ TokenKind.marks, entry.1.head? = some c → entry.1.tail = [] := by
    decide
  obtain ⟨hslash, hlonger⟩ := hall c hc
  refine .token (.mark h) (endsBefore_mark h (by simpa using hslash) ?_) hrest
  rintro d - entry hentry heq
  have htail := hlonger entry hentry (by simp [heq])
  simp [heq] at htail

/-- A sign is read in front of a numeral. -/
theorem sign (hcs : ∃ c ∈ cs.head?, c.isDigit) (hrest : Reads cs words) :
    Reads ('-' :: cs) ((.dash, "-") :: words) := by
  have hmark : (['-'], TokenKind.dash) ∈ TokenKind.marks := by decide
  refine .token (.mark hmark) (endsBefore_mark hmark (by decide) ?_) hrest
  have hall : ∀ entry ∈ TokenKind.marks, entry.1.head? = some '-' →
      ∀ d ∈ entry.1.tail, ¬d.isDigit := by
    decide
  obtain ⟨c, hc, hdigit⟩ := hcs
  rintro d hd entry hentry heq
  obtain rfl := Option.mem_unique hc hd
  exact hall entry hentry (by simp [heq]) c (by simp [heq]) hdigit

theorem written (h : Reads cs words) {word : Word} (hword : word ∈ words) :
    ∃ piece, (Lexeme.token word.1 word.2).Written piece := by
  induction h with
  | nil => cases hword
  | gap _ _ _ ih => exact ih hword
  | token hwritten _ _ ih =>
    obtain rfl | hword := List.mem_cons.1 hword
    · exact ⟨_, hwritten⟩
    · exact ih hword

end Reads

end Script

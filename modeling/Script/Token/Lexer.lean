import Script.Error
import Script.Text.Blank
import Script.Token

/-!
# From text to tokens

A source text is read from the front, one lexeme at a time: a word, a run of digits, a run of blank
characters, a string literal, a comment, or an operator. Blank runs and comments are gaps and give
no token. The first character decides which of them a lexeme can be, and each is read as far as it
goes. Every lexeme takes at least one character, so reading ends; it fails where no lexeme begins.
-/

namespace Script

def isWordStart (c : Char) : Bool := c.isAlpha || c == '_'

def isWordPart (c : Char) : Bool := c.isAlphanum || c == '_'

namespace StringLiteral

/-- Splits what follows an opening quote at the quote that closes it. A backslash takes the
character behind it along, so an escaped quote closes nothing; a newline ends the attempt. -/
def split? : List Char → Option (List Char × List Char)
  | [] => none
  | '"' :: rest => some ([], rest)
  | '\\' :: c :: rest =>
    if c = '\n' then none else (split? rest).map fun (raw, rest) => ('\\' :: c :: raw, rest)
  | c :: rest =>
    if c = '\\' ∨ c = '\n' then none else (split? rest).map fun (raw, rest) => (c :: raw, rest)

def isHexDigit (c : Char) : Bool :=
  c.isDigit || ('a' ≤ c && c ≤ 'f') || ('A' ≤ c && c ≤ 'F')

def hexValue (c : Char) : Nat :=
  if c.isDigit then c.toNat - '0'.toNat
  else if 'a' ≤ c then c.toNat - 'a'.toNat + 10
  else c.toNat - 'A'.toNat + 10

/-- The text a literal stands for. After a backslash and `x`, one or two hexadecimal digits name a
character; a backslash that begins no escape stands for itself. -/
def decode : List Char → List Char
  | [] => []
  | '\\' :: 'n' :: rest => '\n' :: decode rest
  | '\\' :: 't' :: rest => '\t' :: decode rest
  | '\\' :: '\\' :: rest => '\\' :: decode rest
  | '\\' :: 'r' :: rest => '\r' :: decode rest
  | '\\' :: '"' :: rest => '"' :: decode rest
  | '\\' :: '0' :: rest => '\x00' :: decode rest
  | '\\' :: 'x' :: a :: b :: rest =>
    if isHexDigit a then
      if isHexDigit b then Char.ofNat (16 * hexValue a + hexValue b) :: decode rest
      else Char.ofNat (hexValue a) :: decode (b :: rest)
    else '\\' :: 'x' :: decode (a :: b :: rest)
  | ['\\', 'x', a] => if isHexDigit a then [Char.ofNat (hexValue a)] else ['\\', 'x', a]
  | c :: rest => c :: decode rest

end StringLiteral

inductive Lexeme where
  | token (kind : TokenKind) (text : String)
  | gap
  deriving Inhabited

/-- One lexeme, the characters it is written with, and those behind it. -/
structure Scan where
  lexeme : Lexeme
  taken : List Char
  rest : List Char
  deriving Inhabited

namespace Scan

/-- The longest run of characters of one class. -/
def run (part : Char → Bool) (lexeme : List Char → Lexeme) (cs : List Char) : Scan where
  lexeme := lexeme (cs.takeWhile part)
  taken := cs.takeWhile part
  rest := cs.dropWhile part

def word : List Char → Scan :=
  run isWordPart fun cs => .token (.ofWord (String.ofList cs)) (String.ofList cs)

def number : List Char → Scan :=
  run Char.isDigit fun cs => .token .number (String.ofList cs)

def blank : List Char → Scan :=
  run isBlank fun _ => .gap

def comment : List Char → Scan :=
  run (· ≠ '\n') fun _ => .gap

/-- The literal whose opening quote comes before `cs`. -/
def literal? (cs : List Char) : Option Scan :=
  (StringLiteral.split? cs).map fun (raw, rest) =>
    ⟨.token .string (String.ofList (StringLiteral.decode raw)), '"' :: raw ++ ['"'], rest⟩

def mark? (cs : List Char) : Option Scan :=
  (TokenKind.marks.find? fun (mark, _) => mark.isPrefixOf cs).map fun (mark, kind) =>
    ⟨.token kind (String.ofList mark), mark, cs.drop mark.length⟩

end Scan

/-- The lexeme at the front of a text. -/
def scan? : List Char → Option Scan
  | [] => none
  | c :: cs =>
    if isWordStart c then some (.word (c :: cs))
    else if c.isDigit then some (.number (c :: cs))
    else if isBlank c then some (.blank (c :: cs))
    else if c = '"' then Scan.literal? cs
    else if c = '/' ∧ cs.head? = some '/' then some (.comment (c :: cs))
    else Scan.mark? (c :: cs)

namespace Scan

private theorem length_dropWhile_le (p : Char → Bool) (cs : List Char) :
    (cs.dropWhile p).length ≤ cs.length :=
  (List.dropWhile_suffix p).length_le

private theorem run_shorter {part : Char → Bool} {lexeme : List Char → Lexeme} {c : Char}
    {cs : List Char} (hpart : part c = true) :
    (run part lexeme (c :: cs)).rest.length < (c :: cs).length := by
  simp only [run, List.dropWhile_cons, hpart, if_true, List.length_cons]
  exact Nat.lt_succ_of_le (length_dropWhile_le part cs)

private theorem length_split? {cs raw rest : List Char} (h : StringLiteral.split? cs = some (raw, rest)) :
    rest.length < cs.length := by
  fun_induction StringLiteral.split? cs generalizing raw rest with
  | case1 => simp at h
  | case2 => simp only [Option.some.injEq, Prod.mk.injEq] at h; simp [h.2]
  | case3 => simp at h
  | case4 c tail hc ih =>
    obtain ⟨⟨raw', rest'⟩, hsplit, heq⟩ := Option.map_eq_some_iff.1 h
    simp only [Prod.mk.injEq] at heq
    have := ih hsplit
    simp only [List.length_cons, ← heq.2]; omega
  | case5 => simp at h
  | case6 c tail _ _ hc ih =>
    obtain ⟨⟨raw', rest'⟩, hsplit, heq⟩ := Option.map_eq_some_iff.1 h
    simp only [Prod.mk.injEq] at heq
    have := ih hsplit
    simp only [List.length_cons, ← heq.2]; omega

private theorem mark_ne_nil {mark : List Char} {kind : TokenKind}
    (h : (mark, kind) ∈ TokenKind.marks) : mark ≠ [] := by
  have : ∀ entry ∈ TokenKind.marks, entry.1 ≠ [] := by decide
  exact this _ h

private theorem isWordPart_of_isWordStart {c : Char} (h : isWordStart c = true) :
    isWordPart c = true := by
  simp only [isWordStart, isWordPart, Char.isAlphanum, Bool.or_eq_true] at h ⊢
  exact h.imp_left Or.inl

/-- A lexeme takes at least one character. -/
theorem rest_shorter {cs : List Char} {s : Scan} (h : scan? cs = some s) :
    s.rest.length < cs.length := by
  cases cs with
  | nil => simp [scan?] at h
  | cons c cs =>
    rw [scan?] at h
    split at h
    · next hc => cases h; exact run_shorter (isWordPart_of_isWordStart hc)
    split at h
    · next hc => cases h; exact run_shorter hc
    split at h
    · next hc => cases h; exact run_shorter hc
    split at h
    · obtain ⟨⟨raw, rest⟩, hsplit, rfl⟩ := Option.map_eq_some_iff.1 h
      exact Nat.lt_succ_of_lt (length_split? hsplit)
    split at h
    · next hc => cases h; exact run_shorter (by simp [hc.1])
    · obtain ⟨⟨mark, kind⟩, hfind, rfl⟩ := Option.map_eq_some_iff.1 h
      have := List.length_pos_iff.2 (mark_ne_nil (List.mem_of_find?_eq_some hfind))
      simp only [List.length_drop, List.length_cons]
      omega

end Scan

/-- The tokens of the text `cs` that begins at `p`, the closing one included. -/
def tokensFrom (p : Position) (cs : List Char) : Except Error (List Token) :=
  match cs with
  | [] => .ok [.endOfFile p]
  | c :: cs =>
    match _h : scan? (c :: cs) with
    | none => .error (.located (.unrecognisedToken c.toString) p)
    | some s =>
      let q := p.advance s.taken
      match s.lexeme with
      | .gap => tokensFrom q s.rest
      | .token kind text => do return ⟨kind, text, ⟨p, q⟩⟩ :: (← tokensFrom q s.rest)
termination_by cs.length
decreasing_by all_goals exact Scan.rest_shorter _h

def tokenize (source : String) (file : String) : Except Error (List Token) :=
  tokensFrom (.start file) source.toList

end Script

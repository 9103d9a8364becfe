import Script.Proofs.Token.Pieces

/-!
# Tokens in their text

The tokens of a text, laid over it: each covers the characters it is written with, and what lies
between two of them, before the first and behind the last is blank runs and comments alone. A text
that has no tokens comes to a place where no piece begins, when the longest piece is taken from its
front again and again, and the error is reported there.
-/

namespace Script

/-- The place behind the characters `before` of a file: so many bytes, and one line more than there
are newlines. -/
def Position.behind (file : String) (before : List Char) : Position :=
  ⟨(String.ofList before).utf8ByteSize, 1 + before.count '\n', file⟩

/-- Blank runs and comments, any number of them. -/
def IsGap (cs : List Char) : Prop :=
  ∃ pieces : List (List Char), cs = pieces.flatten ∧ ∀ piece ∈ pieces, Lexeme.gap.Written piece

/-- A token that is written with the characters `lexeme` behind the characters `before`. -/
structure Token.Covers (t : Token) (file : String) (before lexeme : List Char) : Prop where
  written : (Lexeme.token t.kind t.text).Written lexeme
  span : t.span = ⟨.behind file before, .behind file (before ++ lexeme)⟩

/-- Tokens laid over a text that stands behind the characters `before`. -/
inductive Laid (file : String) : List Char → List Char → List Token → Prop
  | done {before gap : List Char} : IsGap gap →
    Laid file before gap [.endOfFile (.behind file (before ++ gap))]
  | token {before gap lexeme rest : List Char} {t : Token} {ts : List Token} : IsGap gap →
    t.Covers file (before ++ gap) lexeme → Laid file (before ++ gap ++ lexeme) rest ts →
    Laid file before (gap ++ lexeme ++ rest) (t :: ts)

/-- From the front of the text `cs` the longest piece is taken until those taken are `taken` in all
and `left` is what is left. -/
inductive Munches : List Char → List Char → List Char → Prop
  | done (cs : List Char) : Munches cs [] cs
  | piece {piece rest taken left : List Char} : LongestPiece (piece ++ rest) piece →
    Munches rest taken left → Munches (piece ++ rest) (piece ++ taken) left

/-- A success is told from other results without a look at their errors. -/
instance decidableEqOk {α : Type} [DecidableEq α] (result : Except Error α) (a : α) :
    Decidable (result = .ok a) :=
  match result with
  | .ok b => decidable_of_iff (b = a) (by simp)
  | .error _ => .isFalse (by simp)

/-! ### Places -/

theorem foldl_utf8Size (cs : List Char) (n : Nat) :
    cs.foldl (fun n c => n + c.utf8Size) n = n + (String.ofList cs).utf8ByteSize := by
  induction cs generalizing n with
  | nil => simp
  | cons c cs ih =>
    rw [List.foldl_cons, ih, String.ofList_cons, String.utf8ByteSize_append,
      String.utf8ByteSize_singleton, Nat.add_assoc]

@[simp]
theorem advance_behind (file : String) (before cs : List Char) :
    (Position.behind file before).advance cs = .behind file (before ++ cs) := by
  simp [Position.advance, Position.behind, foldl_utf8Size, Nat.add_assoc]

theorem advance_replicate (p : Position) (n : Nat) :
    p.advance (List.replicate n ' ') = { p with offset := p.offset + n } := by
  have hfold (k : Nat) :
      (List.replicate n ' ').foldl (fun k c => k + c.utf8Size) k = k + n := by
    induction n generalizing k with
    | zero => rfl
    | succ n ih =>
      have hsize : ' '.utf8Size = 1 := rfl
      rw [List.replicate_succ, List.foldl_cons, ih, hsize]
      omega
  rw [Position.advance, hfold, List.count_replicate]
  simp

theorem offset_behind_le (file : String) (before cs : List Char) :
    (Position.behind file before).offset ≤ (Position.behind file (before ++ cs)).offset := by
  simp [Position.behind]

/-! ### Lexemes of tokens -/

theorem ofWord_ne (word : String) : TokenKind.ofWord word ≠ .string ∧
    TokenKind.ofWord word ≠ .endOfFile := by
  unfold TokenKind.ofWord
  split <;> decide

/-- A token stands on one line. -/
theorem Lexeme.Written.not_mem_newline {kind : TokenKind} {text : String} {lexeme : List Char}
    (h : (Lexeme.token kind text).Written lexeme) : '\n' ∉ lexeme := by
  cases h with
  | @word c cs hstart hparts =>
    intro hmem
    obtain rfl | hmem := List.mem_cons.1 hmem
    · exact absurd hstart (by decide)
    · exact absurd (hparts _ hmem) (by decide)
  | number _ hdigits => exact fun hmem => absurd (hdigits _ hmem) (by decide)
  | literal hbody => simp [hbody.not_mem_newline]
  | mark hmark =>
    obtain ⟨c, cs, rfl, -, -, -, -, hline, htail, -⟩ := mark_head hmark
    simp [hline.symm, htail]

/-- The text of a token is what it is written with, but for a string, which is decoded. -/
theorem Lexeme.Written.text_eq {kind : TokenKind} {text : String} {lexeme : List Char}
    (h : (Lexeme.token kind text).Written lexeme) :
    if kind = .string then ∃ raw, StringLiteral.Body raw ∧ lexeme = '"' :: raw ++ ['"'] ∧
      text = String.ofList (StringLiteral.decode raw)
    else text = String.ofList lexeme := by
  cases h with
  | word => rw [if_neg (ofWord_ne _).1]
  | number => rfl
  | literal hbody => exact ⟨_, hbody, rfl, rfl⟩
  | mark hmark =>
    have hall : ∀ entry ∈ TokenKind.marks, entry.2 ≠ .string := by decide
    rw [if_neg (hall _ hmark)]

theorem Lexeme.Written.kind_ne_endOfFile {kind : TokenKind} {text : String} {lexeme : List Char}
    (h : (Lexeme.token kind text).Written lexeme) : kind ≠ .endOfFile := by
  cases h with
  | word => exact (ofWord_ne _).2
  | number => decide
  | literal => decide
  | mark hmark =>
    have hall : ∀ entry ∈ TokenKind.marks, entry.2 ≠ .endOfFile := by decide
    exact hall _ hmark

/-! ### Reading on from a place -/

section

variable {file : String} {before cs : List Char} {tokens : List Token}

theorem Laid.behind_gap {gap : List Char} (hgap : Lexeme.gap.Written gap)
    (h : Laid file (before ++ gap) cs tokens) : Laid file before (gap ++ cs) tokens := by
  have hcons {more : List Char} : IsGap more → IsGap (gap ++ more) := by
    rintro ⟨pieces, rfl, hpieces⟩
    exact ⟨gap :: pieces, rfl, by simpa [hgap] using hpieces⟩
  cases h with
  | done hmore =>
    rw [List.append_assoc]
    exact .done (hcons hmore)
  | token hmore hcovers hrest =>
    rw [List.append_assoc before] at hcovers hrest
    rw [← List.append_assoc, ← List.append_assoc]
    exact .token (hcons hmore) hcovers hrest

/-- Texts from their end: a text is read up, or nothing is read from it, or a piece is. -/
theorem text_induction {P : List Char → Prop} (nil : P [])
    (stuck : ∀ c cs, scan? (c :: cs) = none → P (c :: cs))
    (piece : ∀ cs s, scan? cs = some s → P s.rest → P cs) (cs : List Char) : P cs :=
  match cs with
  | [] => nil
  | c :: cs =>
    match h : scan? (c :: cs) with
    | none => stuck c cs h
    | some s => piece _ s h (text_induction nil stuck piece s.rest)
termination_by cs.length
decreasing_by exact Scan.rest_shorter h

theorem tokensFrom_stuck (p : Position) {c : Char} {cs : List Char} (h : scan? (c :: cs) = none) :
    tokensFrom p (c :: cs) = .error (.located (.unrecognisedToken c.toString) p) := by
  rw [tokensFrom]
  split
  · rfl
  · next hscan => rw [h] at hscan; cases hscan

theorem tokensFrom_piece (p : Position) {s : Scan} (h : scan? cs = some s) :
    tokensFrom p cs = match s.lexeme with
      | .gap => tokensFrom (p.advance s.taken) s.rest
      | .token kind text => (tokensFrom (p.advance s.taken) s.rest).map
          (⟨kind, text, ⟨p, p.advance s.taken⟩⟩ :: ·) := by
  cases cs with
  | nil => simp [scan?] at h
  | cons c cs =>
    rw [tokensFrom]
    split
    · next hscan => rw [h] at hscan; cases hscan
    · next s' hscan =>
      rw [h, Option.some.injEq] at hscan
      subst hscan
      cases s.lexeme with
      | gap => rfl
      | token kind text =>
        dsimp only
        cases tokensFrom (p.advance s.taken) s.rest <;> rfl

/-- A blank run that nothing blank follows is read at once. -/
theorem tokensFrom_blanks (p : Position) {blanks rest : List Char}
    (hblanks : ∀ c ∈ blanks, isBlank c) (hrest : ∀ c ∈ rest.head?, ¬isBlank c) :
    tokensFrom p (blanks ++ rest) = tokensFrom (p.advance blanks) rest := by
  cases blanks with
  | nil => rfl
  | cons c cs =>
    have hc : isBlank c := hblanks c List.mem_cons_self
    have hscan : scan? (c :: cs ++ rest) = some (.blank (c :: cs ++ rest)) := by
      rw [List.cons_append, scan?, if_neg (not_isWordStart_of_isBlank hc),
        if_neg (not_isDigit_of_isBlank hc), if_pos hc]
    have hnone : rest.takeWhile isBlank = [] := by
      cases rest with
      | nil => rfl
      | cons d ds => exact List.takeWhile_cons_of_neg (hrest d rfl)
    have htaken : (Scan.blank (c :: cs ++ rest)).taken = c :: cs := by
      change (c :: cs ++ rest).takeWhile isBlank = c :: cs
      rw [List.takeWhile_append_of_pos hblanks, hnone, List.append_nil]
    have heq := (written_of_scan? hscan).2
    rw [htaken] at heq
    rw [tokensFrom_piece p hscan]
    change tokensFrom (p.advance _) _ = _
    rw [htaken, ← List.append_cancel_left heq]

theorem tokenize_replicate (file : String) (n : Nat) {rest : List Char}
    (hrest : ∀ c ∈ rest.head?, ¬isBlank c) :
    tokenize (String.ofList (List.replicate n ' ' ++ rest)) file =
      tokensFrom ⟨n, 1, file⟩ rest := by
  have hblanks : ∀ c ∈ List.replicate n ' ', isBlank c := by
    intro c hc
    rw [List.eq_of_mem_replicate hc]
    decide
  rw [tokenize, String.toList_ofList, tokensFrom_blanks _ hblanks hrest, advance_replicate,
    Position.start, Nat.zero_add]

theorem laid_of_tokensFrom (h : tokensFrom (.behind file before) cs = .ok tokens) :
    Laid file before cs tokens := by
  have hnil : IsGap [] := ⟨[], rfl, nofun⟩
  induction cs using text_induction generalizing before tokens with
  | nil =>
    simp only [tokensFrom, Except.ok.injEq] at h
    have hlaid : Laid file before [] [.endOfFile (.behind file (before ++ []))] := .done hnil
    simpa [h] using hlaid
  | stuck c cs hscan =>
    rw [tokensFrom_stuck _ hscan] at h
    cases h
  | piece cs s hscan ih =>
    obtain ⟨hwritten, heq⟩ := written_of_scan? hscan
    rw [tokensFrom_piece _ hscan, advance_behind] at h
    cases hlexeme : s.lexeme with
    | gap =>
      rw [hlexeme] at h hwritten
      rw [heq]
      exact .behind_gap hwritten (ih h)
    | token kind text =>
      rw [hlexeme] at h hwritten
      cases hrest : tokensFrom (.behind file (before ++ s.taken)) s.rest with
      | error e => simp [hrest, Except.map] at h
      | ok ts =>
        simp only [hrest, Except.map, Except.ok.injEq] at h
        have hlaid : Laid file (before ++ [] ++ s.taken) s.rest ts := by simpa using ih hrest
        rw [heq, ← h]
        exact .token hnil ⟨hwritten, by simp⟩ hlaid

/-! ### Coming to a place where nothing is read -/

theorem Munches.eq_append {taken left : List Char} (h : Munches cs taken left) :
    cs = taken ++ left := by
  induction h with
  | done => rfl
  | piece _ _ ih => rw [ih, List.append_assoc]

theorem Munches.of_stuck {taken left : List Char} (h : Munches cs taken left)
    (hstuck : ∀ piece, piece <+: cs → ¬IsPiece piece) : taken = [] ∧ left = cs := by
  cases h with
  | done => exact ⟨rfl, rfl⟩
  | piece hpiece _ => exact absurd hpiece.isPiece (hstuck _ hpiece.isPrefix)

/-- Who comes to a place where no piece begins takes what is read first. -/
theorem Munches.of_scan? {s : Scan} (hscan : scan? cs = some s) {taken left : List Char}
    (h : Munches cs taken left) (hstuck : ∀ piece, piece <+: left → ¬IsPiece piece) :
    ∃ taken', taken = s.taken ++ taken' ∧ Munches s.rest taken' left := by
  have hlongest := longestPiece_of_scan? hscan
  cases h with
  | done => exact absurd hlongest.isPiece (hstuck _ hlongest.isPrefix)
  | @piece piece rest taken _ hpiece hrest =>
    obtain rfl := hpiece.unique hlongest
    obtain rfl := List.append_cancel_left (written_of_scan? hscan).2
    exact ⟨taken, rfl, hrest⟩

theorem tokensFrom_error_iff {e : Error} : tokensFrom (.behind file before) cs = .error e ↔
    ∃ taken c rest, Munches cs taken (c :: rest) ∧
      (∀ piece, piece <+: c :: rest → ¬IsPiece piece) ∧
      e = .located (.unrecognisedToken c.toString) (.behind file (before ++ taken)) := by
  induction cs using text_induction generalizing before with
  | nil =>
    simp only [tokensFrom, reduceCtorEq, false_iff]
    rintro ⟨taken, c, rest, hmunches, -, -⟩
    simpa using hmunches.eq_append
  | stuck c cs hscan =>
    rw [tokensFrom_stuck _ hscan, Except.error.injEq]
    have hstuck := scan?_eq_none_iff.1 hscan
    constructor
    · rintro rfl
      exact ⟨[], c, cs, .done _, hstuck, by simp⟩
    · rintro ⟨taken, d, rest, hmunches, -, rfl⟩
      obtain ⟨rfl, hleft⟩ := hmunches.of_stuck hstuck
      obtain ⟨rfl, -⟩ := List.cons.inj hleft
      simp
  | piece cs s hscan ih =>
    have hread : tokensFrom (.behind file before) cs = .error e ↔
        tokensFrom (.behind file (before ++ s.taken)) s.rest = .error e := by
      rw [tokensFrom_piece _ hscan, advance_behind]
      cases s.lexeme with
      | gap => rfl
      | token kind text =>
        cases tokensFrom (.behind file (before ++ s.taken)) s.rest <;> simp [Except.map]
    rw [hread, ih]
    constructor
    · rintro ⟨taken, c, rest, hmunches, hstuck, rfl⟩
      refine ⟨s.taken ++ taken, c, rest, ?_, hstuck, by simp⟩
      rw [(written_of_scan? hscan).2]
      exact .piece ((written_of_scan? hscan).2 ▸ longestPiece_of_scan? hscan) hmunches
    · rintro ⟨_, c, rest, hmunches, hstuck, rfl⟩
      obtain ⟨taken, rfl, hrest⟩ := hmunches.of_scan? hscan hstuck
      exact ⟨taken, c, rest, hrest, hstuck, by simp⟩

end

/-! ### What a layout says of its tokens -/

namespace Laid

variable {file : String} {before cs : List Char} {tokens : List Token}

/-- The tokens stand one behind the other, all inside of the text. -/
theorem ordered (h : Laid file before cs tokens) :
    (tokens.Pairwise fun t u => t.span.stop.offset ≤ u.span.start.offset) ∧
    ∀ t ∈ tokens, (Position.behind file before).offset ≤ t.span.start.offset ∧
      t.span.start.offset ≤ t.span.stop.offset ∧
      t.span.stop.offset ≤ (Position.behind file (before ++ cs)).offset := by
  induction h with
  | @done before gap _ =>
    refine ⟨List.pairwise_singleton .., ?_⟩
    simp [Token.endOfFile, offset_behind_le]
  | @token before gap lexeme rest t ts _ hcovers _ ih =>
    obtain ⟨hpairwise, hinside⟩ := ih
    have hstart : t.span.start = .behind file (before ++ gap) := by rw [hcovers.span]
    have hstop : t.span.stop = .behind file (before ++ gap ++ lexeme) := by rw [hcovers.span]
    have h₁ := offset_behind_le file before gap
    have h₂ := offset_behind_le file (before ++ gap) lexeme
    have h₃ := offset_behind_le file (before ++ gap ++ lexeme) rest
    simp only [List.append_assoc] at hstart hstop hinside h₁ h₂ h₃ ⊢
    refine ⟨List.pairwise_cons.2 ⟨fun u hu => ?_, hpairwise⟩, ?_⟩
    · rw [hstop]
      exact (hinside u hu).1
    · intro u hu
      obtain rfl | hu := List.mem_cons.1 hu
      · rw [hstart, hstop]
        exact ⟨h₁, h₂, h₃⟩
      · obtain ⟨hle, hrest⟩ := hinside u hu
        exact ⟨Nat.le_trans h₁ (Nat.le_trans h₂ hle), hrest⟩

/-- Every token but the last covers its characters in the text. -/
theorem covers (h : Laid file before cs tokens) {t : Token} (ht : t ∈ tokens)
    (hkind : t.kind ≠ .endOfFile) : ∃ front lexeme rest, cs = front ++ lexeme ++ rest ∧
      t.Covers file (before ++ front) lexeme := by
  induction h with
  | done =>
    rw [List.mem_singleton.1 ht] at hkind
    exact absurd rfl hkind
  | @token before gap lexeme rest u ts _ hcovers _ ih =>
    obtain rfl | ht := List.mem_cons.1 ht
    · exact ⟨gap, lexeme, rest, rfl, hcovers⟩
    · obtain ⟨front, lexeme', rest', rfl, hcovers'⟩ := ih ht
      exact ⟨gap ++ lexeme ++ front, lexeme', rest', by simp, by simpa using hcovers'⟩

/-- The end of the file is the last token, and no other one. -/
theorem endOfFile (h : Laid file before cs tokens) :
    ∃ ts, tokens = ts ++ [.endOfFile (.behind file (before ++ cs))] ∧
      ∀ t ∈ ts, t.kind ≠ .endOfFile := by
  induction h with
  | done => exact ⟨[], rfl, nofun⟩
  | @token before gap lexeme rest t ts _ hcovers _ ih =>
    obtain ⟨us, rfl, hus⟩ := ih
    refine ⟨t :: us, by simp, ?_⟩
    simpa [hcovers.written.kind_ne_endOfFile] using hus

end Laid

/-- What the tokens of a text say of it. -/
structure Accounts (file source : String) (tokens : List Token) : Prop where
  /-- All that is not covered by a token lies in gaps. -/
  laid : Laid file [] source.toList tokens
  ordered : tokens.Pairwise fun t u => t.span.stop.offset ≤ u.span.start.offset
  inside : ∀ t ∈ tokens, t.span.start.offset ≤ t.span.stop.offset ∧
    t.span.stop.offset ≤ source.utf8ByteSize
  /-- A token covers the characters it is written with, which hold no newline and are its text, but
  for a string, where they are the quotes and what is decoded between them. -/
  covers : ∀ t ∈ tokens, t.kind ≠ .endOfFile →
    ∃ before lexeme after, source.toList = before ++ lexeme ++ after ∧
      t.Covers file before lexeme ∧ '\n' ∉ lexeme ∧
      if t.kind = .string then ∃ raw, StringLiteral.Body raw ∧ lexeme = '"' :: raw ++ ['"'] ∧
        t.text = String.ofList (StringLiteral.decode raw)
      else t.text = String.ofList lexeme
  endOfFile : ∃ ts, tokens = ts ++ [.endOfFile (.behind file source.toList)] ∧
    ∀ t ∈ ts, t.kind ≠ .endOfFile

end Script

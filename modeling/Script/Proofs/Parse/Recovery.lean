import Script.Proofs.Parse.Reported

/-!
# Recovery

A program is read extent by extent. Wherever a parser gives up inside of an extent, reading goes on
behind it, and an extent that holds more than one statement holds an `else` that none of them takes.
So an extent gives at most one error, at one of its own tokens, and neither its statements nor its
error depend on what stands around it.
-/

namespace Script

namespace Cursor

variable {s : Cursor} {taken left : List Token}

theorem push_nil (s : Cursor) : s.push [] = s :=
  rfl

/-- Recovery from inside of an extent goes on behind it. -/
theorem recover_push (hend : statementEnd (braceDepth taken) left = some [])
    (helse : s.current.kind ≠ .wordElse) : (s.push (taken ++ left)).recover (s.push left) = s := by
  have hlength : (taken ++ left ++ s.rest).length - (left ++ s.rest).length = taken.length := by
    simp only [List.length_append]
    omega
  have htaken : (taken ++ left ++ s.rest).take taken.length = taken := by
    rw [List.append_assoc, List.take_left]
  have hskip : skipStatement (braceDepth taken) (left ++ s.rest) = s.rest := by
    rw [skipStatement_eq, statementEnd_append hend (noElse_rest helse)]
    rfl
  unfold recover push
  dsimp only
  rw [hlength, htaken, hskip]

end Cursor

namespace Parser

open Cursor

variable {s s' t : Cursor}

/-- No statement begins with an `else`. -/
theorem stmt_else {token : Token} {rest : List Token} {stop : Token}
    (h : token.kind = .wordElse) :
    stmt ⟨token :: rest, stop⟩ =
      .error (.located (.unexpectedToken token.text) token.span.start) ⟨token :: rest, stop⟩ := by
  obtain ⟨kind, text, span⟩ := token
  obtain rfl : kind = .wordElse := h
  rfl

/-- An error at one of the tokens. -/
def LocatedIn (tokens : List Token) (e : Error) : Prop :=
  ∃ token ∈ tokens, ∃ cause : Cause, e = .located cause token.span.start

theorem locatedIn_of_standsAt {taken left : List Token} {e : Error}
    (h : e.StandsAt (s.push left)) (hne : left ≠ []) : LocatedIn (taken ++ left) e := by
  obtain ⟨cause, -, rfl⟩ := h
  cases left with
  | nil => exact absurd rfl hne
  | cons token left => exact ⟨token, by simp, cause, rfl⟩

theorem outcome_of_error {taken left : List Token} {e : Error}
    (hend : statementEnd (braceDepth taken) left = some []) (hstop : s.stop.kind = .endOfFile)
    (helse : s.current.kind ≠ .wordElse)
    (h : stmt (s.push (taken ++ left)) = .error e (s.push left)) :
    outcome (s.push (taken ++ left)) = ((outcome s).1, e :: (outcome s).2) := by
  have hne : (s.push (taken ++ left)).rest ≠ [] := by
    intro hnil
    have hleft : left = [] := (List.append_eq_nil_iff.1 (List.append_eq_nil_iff.1 hnil).1).2
    rw [hleft] at hend
    cases hend
  rw [outcome_error (s := s.push (taken ++ left)) hstop hne h, recover_push hend helse]

/-- Behind a statement that its extent goes on behind, an `else` follows. -/
theorem outcome_of_else {token : Token} {left : List Token} (hkind : token.kind = .wordElse)
    (hend : statementEnd 0 (token :: left) = some []) (hstop : s.stop.kind = .endOfFile)
    (helse : s.current.kind ≠ .wordElse) :
    outcome (s.push (token :: left)) = ((outcome s).1,
      .located (.unexpectedToken token.text) token.span.start :: (outcome s).2) := by
  show outcome (s.push ([] ++ token :: left)) = _
  exact outcome_of_error hend hstop helse (stmt_else hkind)

/-- Behind a whole statement either its extent is at its end, or an `else` goes on with it. -/
theorem left_of_pastStmt {n : Nat} {depth' : Int} {left : List Token}
    (h : PastStmt (some []) n 0 depth' left) :
    left = [] ∨ ∃ token rest, left = token :: rest ∧ token.kind = .wordElse ∧
      statementEnd 0 left = some [] := by
  obtain ⟨-, -, hends⟩ | ⟨-, -, hends⟩ := h
  · rw [endBehindSemicolon, if_pos (Int.le_refl 0)] at hends
    exact .inl (Option.some.inj hends)
  · unfold endBehindBrace at hends
    split at hends
    · exact .inl (Option.some.inj hends)
    · next hnot =>
      cases left with
      | nil => cases hends
      | cons token rest =>
        have helse : token.kind = .wordElse := by
          simpa [NoElse] using hnot
        exact .inr ⟨token, rest, rfl, helse, hends⟩

/-- The same of an extent in front of two places, of which one is the end of a file. -/
theorem outcome_push {extent : List Token} (h : IsExtent extent) (hs : s.stop.kind = .endOfFile)
    (helse : s.current.kind ≠ .wordElse) (ht : t.stop.kind = .endOfFile) (hempty : t.rest = []) :
    outcome (s.push extent) = ((outcome (t.push extent)).1 ++ (outcome s).1,
        (outcome (t.push extent)).2 ++ (outcome s).2) ∧
      (outcome (t.push extent)).2.length ≤ 1 ∧
      ∀ e ∈ (outcome (t.push extent)).2, LocatedIn extent e := by
  have helse' : t.current.kind ≠ .wordElse := by
    rw [current_of_empty hempty, ht]
    decide
  have hends : statementEnd 0 extent = some [] := (isExtent_iff.1 h).2
  have hne (c : Cursor) : (c.push extent).rest ≠ [] := fun hnil =>
    h.ne_nil (List.append_eq_nil_iff.1 hnil).1
  have hscans := scans_stmt (Int.le_refl 0) ⟨Nat.le_refl extent.length, hends⟩
    ⟨hs, ht, helse, helse', .inl rfl⟩
  obtain ⟨depth', left, ⟨taken, hextent, rfl⟩, hresult⟩ := hscans
  obtain ⟨first, hpast, hp, hq⟩ | ⟨e, hstands, hend, hp, hq⟩ := hresult
  · rw [outcome_ok (s := s.push extent) hs (hne s) hp,
      outcome_ok (s := t.push extent) ht (hne t) hq]
    obtain rfl | ⟨token, rest, rfl, hkind, hend⟩ := left_of_pastStmt hpast
    · rw [push_nil, push_nil, outcome_nil hempty]
      exact ⟨rfl, Nat.zero_le 1, nofun⟩
    · rw [outcome_of_else hkind hend hs helse, outcome_of_else hkind hend ht helse',
        outcome_nil hempty]
      refine ⟨rfl, Nat.le_refl 1, ?_⟩
      intro e hmem
      rw [List.mem_singleton.1 hmem, hextent]
      exact ⟨token, by simp, _, rfl⟩
  · rw [Int.zero_add] at hend
    rw [hextent] at hp hq ⊢
    rw [outcome_of_error hend hs helse hp, outcome_of_error hend ht helse' hq, outcome_nil hempty]
    refine ⟨rfl, Nat.le_refl 1, ?_⟩
    intro e' hmem
    rw [List.mem_singleton.1 hmem]
    apply locatedIn_of_standsAt hstands
    rintro rfl
    cases hend

end Parser

/-- The errors of a result. -/
def errorsOf : Except (List Error) Block → List Error
  | .ok _ => []
  | .error errors => errors

theorem errorsOf_parse (tokens : List Token) (file : String) :
    errorsOf (parse tokens file) = (Parser.outcome (Cursor.ofTokens tokens file)).2 := by
  cases houtcome : Parser.outcome (Cursor.ofTokens tokens file) with
  | mk statements errors =>
    obtain ⟨hok, herror⟩ := parse_of_outcome houtcome
    by_cases hnil : errors = []
    · obtain ⟨span, hparse⟩ := hok hnil
      rw [hparse, hnil]
      rfl
    · rw [herror hnil]
      rfl

namespace Cursor

/-- Without an end-of-file token the file ends with the last token. -/
theorem ofTokens_eq {tokens : List Token} (file : String)
    (h : ∀ token ∈ tokens, token.kind ≠ .endOfFile) :
    ofTokens tokens file =
      ⟨tokens, .endOfFile (tokens.getLast?.elim (.start file) (·.span.stop))⟩ := by
  have hall : ∀ token ∈ tokens, decide (token.kind ≠ .endOfFile) = true :=
    fun token hmem => decide_eq_true (h token hmem)
  have htake : (tokens ++ []).takeWhile
      (fun token : Token => decide (token.kind ≠ TokenKind.endOfFile)) = tokens ++ [] :=
    List.takeWhile_append_of_pos hall
  have hdrop : (tokens ++ []).dropWhile
      (fun token : Token => decide (token.kind ≠ TokenKind.endOfFile)) = [] :=
    List.dropWhile_append_of_pos hall
  rw [List.append_nil] at htake hdrop
  unfold ofTokens
  dsimp only
  rw [htake]
  split
  · next stop rest heq =>
    rw [hdrop] at heq
    cases heq
  · rfl

end Cursor

namespace Parser

open Cursor

variable {s : Cursor} {extents : List (List Token)} {tokens : List Token}

/-- The end of a file, with nothing in front. -/
def finish (p : Position) : Cursor :=
  ⟨[], .endOfFile p⟩

theorem outcome_ofTokens (file : String) (h : ∀ token ∈ tokens, token.kind ≠ .endOfFile) :
    ∃ p, outcome (ofTokens tokens file) = outcome ((finish p).push tokens) := by
  refine ⟨tokens.getLast?.elim (.start file) (·.span.stop), ?_⟩
  rw [ofTokens_eq file h]
  unfold finish push
  rw [List.append_nil]

/-- What an extent gives does not depend on what stands behind it. -/
theorem outcome_extent {extent : List Token} (file : String) (h : IsExtent extent)
    (hs : s.stop.kind = .endOfFile) (helse : s.current.kind ≠ .wordElse) :
    outcome (s.push extent) = ((outcome (ofTokens extent file)).1 ++ (outcome s).1,
        (outcome (ofTokens extent file)).2 ++ (outcome s).2) ∧
      (outcome (ofTokens extent file)).2.length ≤ 1 ∧
      ∀ e ∈ (outcome (ofTokens extent file)).2, LocatedIn extent e := by
  obtain ⟨p, heq⟩ := outcome_ofTokens file h.kind_ne
  rw [heq]
  exact outcome_push h hs helse rfl rfl

theorem current_flatten (h : ∀ extent ∈ extents, IsExtent extent ∧ NoElse extent)
    (hs : s.current.kind ≠ .wordElse) :
    (s.push extents.flatten).current.kind ≠ .wordElse := by
  cases extents with
  | nil => exact hs
  | cons extent extents =>
    obtain ⟨hextent, helse⟩ := h extent List.mem_cons_self
    cases extent with
    | nil => exact absurd rfl hextent.ne_nil
    | cons token extent => exact fun hkind => helse (congrArg some hkind)

/-- Extent by extent. -/
theorem outcome_flatten (file : String) (h : ∀ extent ∈ extents, IsExtent extent ∧ NoElse extent)
    (hs : s.stop.kind = .endOfFile) (helse : s.current.kind ≠ .wordElse) :
    outcome (s.push extents.flatten) =
      (extents.flatMap (fun extent => (outcome (ofTokens extent file)).1) ++ (outcome s).1,
        extents.flatMap (fun extent => (outcome (ofTokens extent file)).2) ++ (outcome s).2) := by
  induction extents with
  | nil => rfl
  | cons extent extents ih =>
    have hrest : ∀ extent ∈ extents, IsExtent extent ∧ NoElse extent := fun other hmem =>
      h other (List.mem_cons_of_mem extent hmem)
    have hpush : s.push (extent :: extents).flatten = (s.push extents.flatten).push extent := by
      simp [push]
    have hfirst := outcome_extent (s := s.push extents.flatten) file
      (h extent List.mem_cons_self).1 hs (current_flatten hrest helse)
    rw [hpush, hfirst.1, ih hrest]
    simp only [List.flatMap_cons, List.append_assoc]

theorem kind_ne_flatten (h : ∀ extent ∈ extents, IsExtent extent ∧ NoElse extent) :
    ∀ token ∈ extents.flatten, token.kind ≠ .endOfFile := by
  intro token hmem
  obtain ⟨extent, hextent, hmem⟩ := List.mem_flatten.1 hmem
  exact (h extent hextent).1.kind_ne token hmem

/-- Extents in front of other tokens. -/
theorem outcome_append (file : String) (tokens : List Token)
    (h : ∀ extent ∈ extents, IsExtent extent ∧ NoElse extent)
    (htokens : ∀ token ∈ tokens, token.kind ≠ .endOfFile) (helse : NoElse tokens) :
    outcome (ofTokens (extents.flatten ++ tokens) file) =
      (extents.flatMap (fun extent => (outcome (ofTokens extent file)).1) ++
          (outcome (ofTokens tokens file)).1,
        extents.flatMap (fun extent => (outcome (ofTokens extent file)).2) ++
          (outcome (ofTokens tokens file)).2) := by
  have hall : ∀ token ∈ extents.flatten ++ tokens, token.kind ≠ .endOfFile :=
    fun token hmem => (List.mem_append.1 hmem).elim (kind_ne_flatten h token) (htokens token)
  generalize hstop : (ofTokens (extents.flatten ++ tokens) file).stop = stop
  have hpush : ofTokens (extents.flatten ++ tokens) file = push ⟨tokens, stop⟩ extents.flatten := by
    rw [← hstop, ofTokens_eq file hall]
    rfl
  have hrest : outcome ⟨tokens, stop⟩ = outcome (ofTokens tokens file) := by
    rw [ofTokens_eq file htokens]
    cases tokens with
    | nil => rfl
    | cons token tokens =>
      rw [← hstop, ofTokens_eq file hall]
      simp [List.getLast?_append, List.getLast?_cons]
  have hs : stop.kind = .endOfFile := by
    rw [← hstop]
    exact kind_stop_ofTokens _ file
  rw [hpush, outcome_flatten (s := ⟨tokens, stop⟩) file h hs (kind_ne_else hs helse), hrest]

end Parser

open Cursor Script.Parser

/-- Extents in front of other tokens are read as on their own. Each gives at most one error, at one
of its own tokens. -/
theorem parse_append (file : String) (extents : List (List Token)) (others : List Token)
    (hextents : ∀ extent ∈ extents, IsExtent extent ∧ NoElse extent)
    (hothers : ∀ token ∈ others, token.kind ≠ .endOfFile) (helse : NoElse others) :
    (∀ first second, parse extents.flatten file = .ok first → parse others file = .ok second →
      ∃ span, parse (extents.flatten ++ others) file =
        .ok (.mk (first.statements ++ second.statements) span)) ∧
    ((¬∃ first second, parse extents.flatten file = .ok first ∧ parse others file = .ok second) →
      parse (extents.flatten ++ others) file =
        .error (errorsOf (parse extents.flatten file) ++ errorsOf (parse others file))) ∧
    errorsOf (parse extents.flatten file) =
      extents.flatMap (fun extent => errorsOf (parse extent file)) ∧
    ∀ extent ∈ extents, (errorsOf (parse extent file)).length ≤ 1 ∧
      ∀ e ∈ errorsOf (parse extent file), LocatedIn extent e := by
  have hwhole := outcome_append file others hextents hothers helse
  have halone := outcome_append file [] hextents (by decide) (by decide)
  have hnil : outcome (ofTokens [] file) = ([], []) := outcome_nil rfl
  rw [List.append_nil, hnil, List.append_nil, List.append_nil] at halone
  have hparts : outcome (ofTokens (extents.flatten ++ others) file) =
      ((outcome (ofTokens extents.flatten file)).1 ++ (outcome (ofTokens others file)).1,
        (outcome (ofTokens extents.flatten file)).2 ++ (outcome (ofTokens others file)).2) := by
    rw [hwhole, halone]
  refine ⟨?_, ?_, ?_, ?_⟩
  · intro first second hfirst hsecond
    obtain ⟨statements, span⟩ := first
    obtain ⟨statements', span'⟩ := second
    rw [parse_ok_iff.1 ⟨span, hfirst⟩, parse_ok_iff.1 ⟨span', hsecond⟩] at hparts
    exact parse_ok_iff.2 hparts
  · intro hnot
    rw [errorsOf_parse, errorsOf_parse]
    apply (parse_of_outcome hparts).2
    intro herrors
    apply hnot
    obtain ⟨hfirst, hsecond⟩ := List.append_eq_nil_iff.1 herrors
    obtain ⟨span, hfirst⟩ := (parse_of_outcome rfl).1 hfirst
    obtain ⟨span', hsecond⟩ := (parse_of_outcome rfl).1 hsecond
    exact ⟨_, _, hfirst, hsecond⟩
  · simp only [errorsOf_parse]
    rw [halone]
  · intro extent hmem
    rw [errorsOf_parse]
    have hextent := outcome_extent (s := finish default) file (hextents extent hmem).1 rfl
      (kind_ne_else rfl (by decide))
    exact hextent.2

/-- The tokens of `let; } a;` in one place: two broken extents and a statement. -/
theorem parse_append_of_broken :
    parse ([[⟨.wordLet, "let", default⟩, ⟨.semicolon, ";", default⟩],
        [⟨.closeCurly, "\x7d", default⟩]].flatten ++
      [⟨.identifier, "a", default⟩, ⟨.semicolon, ";", default⟩]) "" =
    .error [
      .located (.unexpectedTokenDetailed ";" "expected identifier during variable declaration")
        default,
      .located (.unexpectedToken "\x7d") default] := by
  apply (parse_append "" _ _ (by decide) (by decide) (by decide)).2.1
  rintro ⟨first, second, hfirst, -⟩
  cases hfirst

end Script

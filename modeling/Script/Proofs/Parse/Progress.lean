import Mathlib.Data.List.Forall2
import Mathlib.Data.List.TakeWhile
import Script.Proofs.Parse.Loops
import Script.Proofs.Parse.Reported

/-!
# Progress of the parser

A parser in front of all tokens of a file, with ends of the file among them or none at all, reads
statement after statement up to the first end of the file. Every turn of every loop on the way
takes something or leaves, and recovery goes on further than where the statement was given up. So
reading ends, with the statements or with errors at later and later tokens.
-/

namespace Script

namespace Cursor

/-- The tokens of a file, with an end of the file behind them if they do not end with one. -/
def padded (tokens : List Token) (file : String) : List Token :=
  if tokens.getLast?.map (·.kind) = some .endOfFile then tokens
  else tokens ++ [.endOfFile (tokens.getLast?.elim (.start file) (·.span.stop))]

theorem padded_ne_nil (tokens : List Token) (file : String) : padded tokens file ≠ [] := by
  unfold padded
  split
  · next hlast =>
    rintro rfl
    cases hlast
  · simp

/-- In front of all tokens of a file, those behind an end of the file among them. -/
def whole (tokens : List Token) (file : String) : Cursor :=
  ⟨(padded tokens file).dropLast, (padded tokens file).getLast (padded_ne_nil tokens file)⟩

/-- The tokens behind the end of a statement, `depth` braces deep inside of it, or those from an end
of the file on. -/
def afterStatement (depth : Int) : List Token → List Token
  | [] => []
  | token :: rest =>
    match token.kind with
    | .endOfFile => token :: rest
    | .semicolon => if depth ≤ 0 then rest else afterStatement depth rest
    | .openCurly => afterStatement (depth + 1) rest
    | .closeCurly =>
      if depth - 1 ≤ 0 ∧ rest.head?.map (·.kind) ≠ some .wordElse then rest
      else afterStatement (depth - 1) rest
    | _ => afterStatement depth rest

/-- Recovery that looks out for the end of the file. -/
def synchronize (start failed : Cursor) : Cursor :=
  let taken := start.rest.take (start.rest.length - failed.rest.length)
  { failed with rest := afterStatement (braceDepth taken) failed.rest }

variable {s s' t : Cursor} {tokens left : List Token} {depth : Int}

theorem rest_whole (tokens : List Token) (file : String) :
    (whole tokens file).rest ++ [(whole tokens file).stop] = padded tokens file :=
  List.dropLast_append_getLast _

theorem kind_stop_whole (tokens : List Token) (file : String) :
    (whole tokens file).stop.kind = .endOfFile := by
  have hpadded : (padded tokens file).getLast?.map (·.kind) = some .endOfFile := by
    unfold padded
    split
    · next hlast => exact hlast
    · rw [List.getLast?_concat]
      rfl
  rw [List.getLast?_eq_some_getLast (padded_ne_nil tokens file)] at hpadded
  exact Option.some.inj hpadded

/-- The tokens are cut off at the first end of the file. -/
theorem padded_eq_append (tokens : List Token) (file : String) :
    ∃ behind, padded tokens file =
      (ofTokens tokens file).rest ++ (ofTokens tokens file).stop :: behind := by
  have htokens := List.takeWhile_append_dropWhile (p := (·.kind ≠ .endOfFile)) (l := tokens)
  unfold padded ofTokens
  dsimp only
  split
  · next hlast =>
    cases hdrop : tokens.dropWhile (·.kind ≠ .endOfFile) with
    | cons stop behind => exact ⟨behind, by rw [← hdrop]; exact htokens.symm⟩
    | nil =>
      rw [Option.map_eq_some_iff] at hlast
      obtain ⟨last, hlast, hkind⟩ := hlast
      have hne := List.dropWhile_eq_nil_iff.1 hdrop last (List.mem_of_getLast? hlast)
      simp [hkind] at hne
  · cases hdrop : tokens.dropWhile (·.kind ≠ .endOfFile) with
    | cons stop behind =>
      rw [hdrop] at htokens
      refine ⟨behind ++ [.endOfFile (tokens.getLast?.elim (.start file) (·.span.stop))], ?_⟩
      rw [← List.cons_append, ← List.append_assoc, htokens]
    | nil =>
      rw [hdrop, List.append_nil] at htokens
      exact ⟨[], by rw [htokens]⟩

/-- A place is told by what stands in front of a token and behind it. -/
theorem eq_push {before behind : List Token} {token : Token}
    (h : s.rest ++ [s.stop] = before ++ token :: behind) :
    ∃ t : Cursor, s = t.push before ∧ t.stop = s.stop ∧ t.current = token := by
  obtain ⟨rest, stop⟩ := s
  obtain rfl | ⟨behind, last, rfl⟩ := List.eq_nil_or_concat behind
  · obtain ⟨rfl, hstop⟩ := List.append_inj' h rfl
    obtain rfl := List.head_eq_of_cons_eq hstop
    exact ⟨⟨[], _⟩, by rw [push, List.append_nil], rfl, rfl⟩
  · have hlast : rest ++ [stop] = (before ++ token :: behind) ++ [last] := by
      simpa using h
    obtain ⟨rfl, hstop⟩ := List.append_inj' hlast rfl
    obtain rfl := List.head_eq_of_cons_eq hstop
    exact ⟨⟨token :: behind, _⟩, rfl, rfl, rfl⟩

theorem whole_eq_push (tokens : List Token) (file : String) :
    ∃ t : Cursor, whole tokens file = t.push (ofTokens tokens file).rest ∧
      Parser.AtEnd (ofTokens tokens file).stop t := by
  obtain ⟨behind, hpadded⟩ := padded_eq_append tokens file
  obtain ⟨t, hwhole, hstop, hcurrent⟩ := eq_push ((rest_whole tokens file).trans hpadded)
  exact ⟨t, hwhole, kind_stop_ofTokens tokens file, hstop ▸ kind_stop_whole tokens file, hcurrent⟩

/-! ### Recovery -/

theorem afterStatement_suffix (depth : Int) (tokens : List Token) :
    ∃ taken, tokens = taken ++ afterStatement depth tokens ∧
      ∀ token ∈ taken, token.kind ≠ .endOfFile := by
  have one {token : Token} {kind : TokenKind} (rest : List Token) (hkind : token.kind = kind)
      (hne : kind ≠ .endOfFile) :
      ∃ taken, token :: rest = taken ++ rest ∧ ∀ token ∈ taken, token.kind ≠ .endOfFile :=
    ⟨[token], rfl, fun _ hmem => List.mem_singleton.1 hmem ▸ hkind ▸ hne⟩
  have more {token : Token} {rest left : List Token} (hkind : token.kind ≠ .endOfFile)
      (h : ∃ taken, rest = taken ++ left ∧ ∀ token ∈ taken, token.kind ≠ .endOfFile) :
      ∃ taken, token :: rest = taken ++ left ∧ ∀ token ∈ taken, token.kind ≠ .endOfFile := by
    obtain ⟨taken, rfl, hkinds⟩ := h
    exact ⟨token :: taken, rfl, List.forall_mem_cons.2 ⟨hkind, hkinds⟩⟩
  fun_induction afterStatement depth tokens with
  | case1 => exact ⟨[], rfl, nofun⟩
  | case2 => exact ⟨[], rfl, nofun⟩
  | case3 depth token rest hkind _ => exact one rest hkind (by decide)
  | case4 depth token rest hkind _ ih => exact more (by rw [hkind]; decide) ih
  | case5 depth token rest hkind ih => exact more (by rw [hkind]; decide) ih
  | case6 depth token rest hkind _ => exact one rest hkind (by decide)
  | case7 depth token rest hkind _ ih => exact more (by rw [hkind]; decide) ih
  | case8 depth token rest hend _ _ _ ih => exact more hend ih

theorem afterStatement_length_lt {token : Token} {rest : List Token}
    (hkind : token.kind ≠ .endOfFile) :
    (afterStatement depth (token :: rest)).length < (token :: rest).length := by
  have hle (depth : Int) : (afterStatement depth rest).length ≤ rest.length := by
    obtain ⟨taken, hrest, -⟩ := afterStatement_suffix depth rest
    exact List.IsSuffix.length_le ⟨taken, hrest.symm⟩
  rw [List.length_cons, Nat.lt_succ_iff, afterStatement]
  split
  · contradiction
  all_goals try split
  all_goals first | exact hle _ | exact Nat.le_refl _

theorem afterStatement_end (depth : Int) (hend : t.current.kind = .endOfFile) :
    afterStatement depth t.rest = t.rest := by
  obtain ⟨_ | ⟨token, rest⟩, stop⟩ := t
  · rfl
  · have hkind : token.kind = .endOfFile := hend
    show afterStatement depth (token :: rest) = token :: rest
    rw [afterStatement, hkind]

theorem noElse_push (tokens : List Token) (hend : t.current.kind = .endOfFile) :
    NoElse (tokens ++ t.rest) ↔ NoElse tokens := by
  cases tokens with
  | cons token tokens => exact Iff.rfl
  | nil =>
    refine iff_of_true (noElse_rest ?_) nofun
    rw [hend]
    decide

/-- In front of the end of the file, it is the recovery that stops there anyway. -/
theorem afterStatement_append (hkinds : ∀ token ∈ tokens, token.kind ≠ .endOfFile)
    (hend : t.current.kind = .endOfFile) :
    afterStatement depth (tokens ++ t.rest) = skipStatement depth tokens ++ t.rest := by
  induction tokens generalizing depth with
  | nil => exact afterStatement_end depth hend
  | cons token rest ih =>
    obtain ⟨hkind, hkinds⟩ := List.forall_mem_cons.1 hkinds
    have helse := noElse_push rest hend
    unfold NoElse at helse
    rw [List.cons_append, afterStatement, skipStatement]
    split
    · contradiction
    · next hsemicolon =>
      simp only [hsemicolon]
      split
      · rfl
      · exact ih hkinds
    · next hopen =>
      simp only [hopen]
      exact ih hkinds
    · next hclose =>
      simp only [hclose, helse]
      split
      · rfl
      · exact ih hkinds
    · split <;> first | contradiction | exact ih hkinds

/-- Recovery goes on, unless at the end of the file. -/
theorem reaches_synchronize (start failed : Cursor) : failed.Reaches (start.synchronize failed) :=
  ⟨rfl, afterStatement_suffix _ _⟩

theorem passes_synchronize (start : Cursor) {failed : Cursor} (hstop : failed.stop.kind = .endOfFile)
    (hkind : failed.current.kind ≠ .endOfFile) : failed.Passes (start.synchronize failed) := by
  refine ⟨reaches_synchronize start failed, ?_⟩
  have hrest := rest_of_kind hstop hkind
  unfold synchronize
  dsimp only
  rw [hrest]
  exact afterStatement_length_lt hkind

theorem synchronize_at_end (start : Cursor) {failed : Cursor}
    (hkind : failed.current.kind = .endOfFile) : start.synchronize failed = failed := by
  unfold synchronize
  dsimp only
  rw [afterStatement_end _ hkind]

theorem synchronize_push {taken : List Token} {stop : Token}
    (hkinds : ∀ token ∈ left, token.kind ≠ .endOfFile) (hend : Parser.AtEnd stop t) :
    (t.push (taken ++ left)).synchronize (t.push left) =
      t.push (recover ⟨taken ++ left, stop⟩ ⟨left, stop⟩).rest := by
  have hlength : (taken ++ left ++ t.rest).length - (left ++ t.rest).length =
      (taken ++ left).length - left.length := by
    simp only [List.length_append]
    omega
  have htaken : (taken ++ left ++ t.rest).take ((taken ++ left).length - left.length) =
      (taken ++ left).take ((taken ++ left).length - left.length) := by
    rw [List.take_append_of_le_length (Nat.sub_le ..)]
  unfold synchronize recover push
  dsimp only
  rw [hlength, htaken, afterStatement_append hkinds (hend.current ▸ hend.kind)]

/-- Behind a failure, the tokens left by recovery are among those that were left. -/
theorem exists_recover (start : List Token) (stop : Token)
    (hkinds : ∀ token ∈ left, token.kind ≠ .endOfFile) (hstop : stop.kind = .endOfFile) :
    ∃ skipped rest, recover ⟨start, stop⟩ ⟨left, stop⟩ = ⟨rest, stop⟩ ∧ left = skipped ++ rest ∧
      (left ≠ [] → skipped ≠ []) := by
  let depth := braceDepth (start.take (start.length - left.length))
  have hafter : afterStatement depth (left ++ []) = skipStatement depth left ++ [] :=
    afterStatement_append (t := ⟨[], stop⟩) hkinds hstop
  rw [List.append_nil, List.append_nil] at hafter
  obtain ⟨skipped, hleft, -⟩ := afterStatement_suffix depth left
  rw [hafter] at hleft
  refine ⟨skipped, skipStatement depth left, rfl, hleft, ?_⟩
  rintro hne rfl
  cases left with
  | nil => exact hne rfl
  | cons token rest =>
    have hlt : (afterStatement depth (token :: rest)).length < (token :: rest).length :=
      afterStatement_length_lt (hkinds token List.mem_cons_self)
    rw [hafter] at hlt
    exact Nat.lt_irrefl _ (congrArg List.length hleft ▸ hlt)

end Cursor

/-- A syntax error at one of the tokens. -/
def Error.StandsAtIndex (tokens : List Token) (e : Error) (i : Nat) : Prop :=
  ∃ token, tokens[i]? = some token ∧
    ∃ cause : Cause, cause.kind = .syntaxError ∧ e = .located cause token.span.start

/-- An error that stands in front of some tokens, by its index among all. -/
theorem Error.StandsAt.index {e : Error} {before left behind : List Token} {stop : Token}
    (h : e.StandsAt ⟨left, stop⟩) :
    e.StandsAtIndex (before ++ left ++ stop :: behind) before.length := by
  obtain ⟨cause, hkind, rfl⟩ := h
  refine ⟨Cursor.current ⟨left, stop⟩, ?_, cause, hkind, rfl⟩
  cases left <;> simp [Cursor.current]

namespace Parser

open Cursor

variable {s s' t : Cursor} {stop : Token} {b c : Nat}

/-! ### Statement by statement -/

theorem takes_stmt : Takes stmt :=
  .of_agrees fun hend _ => agrees_stmt hend

/-- A turn at the top level: one statement more, or one error. -/
def programTurn (read : List Stmt × List Error) :
    Parser ((List Stmt × List Error) ⊕ (List Stmt × List Error)) := fun s =>
  if s.current.kind = .endOfFile then .ok (.inr read) s
  else match stmt s with
    | .ok first s' => .ok (.inl (read.1 ++ [first], read.2)) s'
    | .error e s' => .ok (.inl (read.1, read.2 ++ [e])) (s.synchronize s')

theorem programTurn_passes {read read' : List Stmt × List Error} (hstop : s.stop.kind = .endOfFile)
    (h : programTurn read s = .ok (.inl read') s') : s.Passes s' := by
  unfold programTurn at h
  split at h
  · cases h
  · next hkind =>
    split at h
    · next first s₁ hresult =>
      cases h
      exact takes_stmt.passes hstop hresult
    · next e s₁ hresult =>
      cases h
      obtain ⟨hreaches, -⟩ := takes_stmt.fails hstop hresult
      have hstop₁ : s₁.stop.kind = .endOfFile := hreaches.stop ▸ hstop
      by_cases hkind₁ : s₁.current.kind = .endOfFile
      · rw [synchronize_at_end s hkind₁]
        exact hreaches.passes_of_ne fun heq => hkind (heq ▸ hkind₁)
      · exact hreaches.passes (passes_synchronize s hstop₁ hkind₁)

section

variable {tokens before behind : List Token} (hend : AtEnd stop t)
  (hkinds : ∀ token ∈ tokens, token.kind ≠ .endOfFile)

include hend hkinds

/-- One turn in front of some tokens. Behind an error nothing is left, or less than its token and
all behind it. -/
theorem program_turn (hne : tokens ≠ []) (hbound : tokens.length ≤ b + 1)
    (read : List Stmt × List Error) :
    ∃ taken left, tokens = taken ++ left ∧ left.length ≤ b ∧
      ((∃ first, programTurn read (t.push tokens) =
          .ok (.inl (read.1 ++ [first], read.2)) (t.push left) ∧
        programWithin (b + 1) ⟨tokens, stop⟩ =
          (first :: (programWithin b ⟨left, stop⟩).1, (programWithin b ⟨left, stop⟩).2)) ∨
      ∃ (e : Error) (i : Nat), programTurn read (t.push tokens) =
          .ok (.inl (read.1, read.2 ++ [e])) (t.push left) ∧
        programWithin (b + 1) ⟨tokens, stop⟩ =
          ((programWithin b ⟨left, stop⟩).1, e :: (programWithin b ⟨left, stop⟩).2) ∧
        (∀ before behind, e.StandsAtIndex (before ++ tokens ++ stop :: behind)
          (before.length + i)) ∧
        i ≤ tokens.length ∧ (left ≠ [] → i < taken.length)) := by
  have hkind : (t.push tokens).current.kind ≠ .endOfFile := by
    cases tokens with
    | nil => exact absurd rfl hne
    | cons token rest => exact hkinds token List.mem_cons_self
  have hagrees : Agrees stop t tokens.length stmt stmt tokens := agrees_stmt hend
  obtain ⟨taken, left, rfl, ⟨first, hlength, hp, hq⟩ | ⟨e, hstands, -, hp, hq⟩⟩ := hagrees
  · refine ⟨taken, left, rfl, by omega, .inl ⟨first, ?_, programWithin_ok hne hp⟩⟩
    rw [programTurn, if_neg hkind, hq]
  · have hleft : ∀ token ∈ left, token.kind ≠ .endOfFile :=
      fun token hmem => hkinds token (List.mem_append_right _ hmem)
    obtain ⟨skipped, rest, hrecover, rfl, hskipped⟩ :=
      exists_recover (taken ++ left) stop hleft hend.kind
    have hpos (hrest : rest ≠ []) : 0 < skipped.length := by
      refine List.length_pos_iff.2 (hskipped fun hnil => hrest ?_)
      exact (List.append_eq_nil_iff.1 hnil).2
    have hread := programWithin_error (b := b) hne hp
    rw [hrecover] at hread
    refine ⟨taken ++ skipped, rest, by rw [List.append_assoc], ?_,
      .inr ⟨e, taken.length, ?_, hread, ?_, ?_, ?_⟩⟩
    · let start : Cursor := ⟨taken ++ (skipped ++ rest), stop⟩
      let failed : Cursor := ⟨skipped ++ rest, stop⟩
      have hlt : (start.recover failed).rest.length < start.rest.length :=
        length_recover_lt hne (by simp [start, failed])
      rw [hrecover] at hlt
      exact Nat.le_of_lt_succ (Nat.lt_of_lt_of_le hlt hbound)
    · rw [programTurn, if_neg hkind, hq]
      dsimp only
      rw [synchronize_push hleft hend, hrecover]
    · intro before behind
      rw [← List.append_assoc before, ← List.length_append]
      exact hstands.index
    · simp
    · intro hrest
      have := hpos hrest
      rw [List.length_append]
      omega

/-- The program is read up to the first end of the file. -/
theorem program_loop (hbound : tokens.length ≤ b) (read : List Stmt × List Error) :
    Loop programTurn read (t.push tokens)
      (.ok (read.1 ++ (programWithin b ⟨tokens, stop⟩).1,
        read.2 ++ (programWithin b ⟨tokens, stop⟩).2) (t.push [])) := by
  have nothing (b : Nat) (read : List Stmt × List Error) : Loop programTurn read (t.push [])
      (.ok (read.1 ++ (programWithin b ⟨[], stop⟩).1,
        read.2 ++ (programWithin b ⟨[], stop⟩).2) (t.push [])) := by
    rw [programWithin_nil rfl, List.append_nil, List.append_nil]
    have hkind : (t.push []).current.kind = .endOfFile := hend.current ▸ hend.kind
    exact .leaves (if_pos hkind)
  induction b generalizing tokens read with
  | zero =>
    obtain rfl := List.length_eq_zero_iff.1 (Nat.le_zero.1 hbound)
    exact nothing 0 read
  | succ b ih =>
    by_cases hne : tokens = []
    · subst hne
      exact nothing (b + 1) read
    · obtain ⟨taken, left, rfl, hle, hstep⟩ := program_turn hend hkinds hne hbound read
      have hleft : ∀ token ∈ left, token.kind ≠ .endOfFile :=
        fun token hmem => hkinds token (List.mem_append_right _ hmem)
      obtain ⟨first, hturn, hread⟩ | ⟨e, i, hturn, hread, -⟩ := hstep
      · rw [hread]
        refine .goesOn hturn ?_
        simpa using ih hleft hle (read.1 ++ [first], read.2)
      · rw [hread]
        refine .goesOn hturn ?_
        simpa using ih hleft hle (read.1, read.2 ++ [e])

/-- Errors stand at later and later tokens. -/
theorem program_errors (before behind : List Token) (hbound : tokens.length ≤ b) :
    ∃ indices : List Nat, indices.Pairwise (· < ·) ∧
      (∀ i ∈ indices, before.length ≤ i ∧ i ≤ before.length + tokens.length) ∧
      List.Forall₂ (Error.StandsAtIndex (before ++ tokens ++ stop :: behind))
        (programWithin b ⟨tokens, stop⟩).2 indices := by
  induction b generalizing tokens before with
  | zero =>
    obtain rfl := List.length_eq_zero_iff.1 (Nat.le_zero.1 hbound)
    rw [programWithin_nil rfl]
    exact ⟨[], .nil, nofun, .nil⟩
  | succ b ih =>
    by_cases hne : tokens = []
    · rw [programWithin_nil hne]
      exact ⟨[], .nil, nofun, .nil⟩
    · obtain ⟨taken, left, rfl, hle, hstep⟩ := program_turn hend hkinds hne hbound ([], [])
      have hleft : ∀ token ∈ left, token.kind ≠ .endOfFile :=
        fun token hmem => hkinds token (List.mem_append_right _ hmem)
      obtain ⟨indices, hpairwise, hbounds, hindices⟩ := ih hleft (before ++ taken) hle
      rw [List.length_append] at hbounds
      rw [List.append_assoc before taken left] at hindices
      have hwithin (i : Nat) (hmem : i ∈ indices) :
          before.length ≤ i ∧ i ≤ before.length + (taken ++ left).length := by
        have := hbounds i hmem
        rw [List.length_append]
        omega
      obtain ⟨first, -, hread⟩ | ⟨e, i, -, hread, hstands, hi, hlt⟩ := hstep
      · rw [hread]
        exact ⟨indices, hpairwise, hwithin, hindices⟩
      · rw [hread]
        refine ⟨(before.length + i) :: indices, ?_, ?_, .cons (hstands before behind) hindices⟩
        · refine List.pairwise_cons.2 ⟨fun j hmem => ?_, hpairwise⟩
          have hrest : left ≠ [] := by
            rintro rfl
            rw [programWithin_nil rfl] at hindices
            cases hindices
            cases hmem
          have := hlt hrest
          have := hbounds j hmem
          omega
        · exact List.forall_mem_cons.2 ⟨⟨Nat.le_add_right .., by omega⟩, hwithin⟩

end

/-- Whatever the expressions and statements inside of them are bounded by, the loops of the parser
go on by at least one token, and so does recovery; a bound is large enough if it is one for all
tokens. -/
structure Progress : Prop where
  arguments (bound : Nat) :
    Advances (itemsTurn (exprWithin bound .lowest) .closeParen "expected ',' between items")
      fun done b => behind done (expressions (exprWithin bound) .closeParen b)
  elements (bound : Nat) :
    Advances (itemsTurn (exprWithin bound .lowest) .closeBracket "expected ',' between items")
      fun done b => behind done (expressions (exprWithin bound) .closeBracket b)
  parameters :
    Advances (itemsTurn parameter .closeParen "expected ',' between parameters")
      fun done b => behind done (items parameter .closeParen "expected ',' between parameters" b)
  names : SeparatedAdvances identifier .comma
  segments : SeparatedAdvances (do return (← expect .identifier).text) .dot
  operators (bound : Nat) (power : Power) :
    Advances (extendTurn (exprWithin bound) power)
      fun left b => extend (exprWithin bound) power b left
  brackets : Advances suffixTurn fun element b => typeSuffixes b element
  blocks (bound : Nat) :
    Advances (blockTurn (stmtWithin bound))
      fun done b => behind done (blockStatements (stmtWithin bound) b)
  program {read read' : List Stmt × List Error} {s s' : Cursor} : s.stop.kind = .endOfFile →
    programTurn read s = .ok (.inl read') s' → s.Passes s'
  recovery (start : Cursor) {failed : Cursor} : failed.stop.kind = .endOfFile →
    if failed.current.kind = .endOfFile then start.synchronize failed = failed
    else failed.Passes (start.synchronize failed)
  expressions (bound : Nat) (power : Power) : Takes (exprWithin bound power)
  statements (bound : Nat) : Takes (stmtWithin bound)
  expressionBound (power : Power) {s : Cursor} {b : Nat} : s.stop.kind = .endOfFile →
    s.rest.length ≤ b → exprWithin b power s = exprWithin s.rest.length power s
  statementBound {s : Cursor} {b : Nat} : s.stop.kind = .endOfFile →
    s.rest.length ≤ b → stmtWithin b s = stmt s

theorem progress : Progress where
  arguments _ := items_advances (takes_exprWithin _ _) (.exprWithin _ _) (by decide)
  elements _ := items_advances (takes_exprWithin _ _) (.exprWithin _ _) (by decide)
  parameters := items_advances takes_parameter .parameter (by decide)
  names := separated_advances takes_identifier (by decide)
  segments := separated_advances takes_segment (by decide)
  operators := extend_advances
  brackets := typeSuffixes_advances
  blocks _ := blockStatements_advances (takes_stmtWithin _)
  program := programTurn_passes
  recovery start failed hstop := by
    split
    · exact synchronize_at_end start ‹_›
    · exact passes_synchronize start hstop ‹_›
  expressions := takes_exprWithin
  statements := takes_stmtWithin
  expressionBound power _ _ hstop hb := exprWithin_bound power hstop hb (Nat.le_refl _)
  statementBound hstop hb := stmtWithin_bound hstop hb (Nat.le_refl _)

end Parser

section

open Script.Cursor Script.Parser

/-- A program is read up to the first end of the file, whatever its tokens are, with errors at later
and later ones, and no loop of the parser stays where it is. -/
theorem parse_advances (tokens : List Token) (file : String) :
    Progress ∧ ∃ statements errors last, ∃ indices : List Nat,
      Loop programTurn ([], []) (whole tokens file) (.ok (statements, errors) last) ∧
      (whole tokens file).Reaches last ∧ last.current.kind = .endOfFile ∧
      parse tokens file =
        (if errors = [] then .ok (.mk statements ⟨.start file, last.current.span.start⟩)
        else .error errors) ∧
      indices.Pairwise (· < ·) ∧
      List.Forall₂ (Error.StandsAtIndex (padded tokens file)) errors indices ∧
      ∀ i ∈ indices, i + last.rest.length < (padded tokens file).length := by
  obtain ⟨t, hwhole, hend⟩ := whole_eq_push tokens file
  obtain ⟨behind, hpadded⟩ := padded_eq_append tokens file
  have hkinds : ∀ token ∈ (ofTokens tokens file).rest, token.kind ≠ .endOfFile :=
    fun token hmem => by simpa using List.mem_takeWhile_imp hmem
  have hloop := program_loop hend hkinds (Nat.le_refl _) ([], [])
  obtain ⟨indices, hpairwise, hbounds, hindices⟩ :=
    program_errors hend hkinds [] behind (Nat.le_refl _)
  have hlast : (t.push []).current = (ofTokens tokens file).stop := hend.current
  have hlength : (padded tokens file).length =
      (ofTokens tokens file).rest.length + (t.push []).rest.length + 1 := by
    have hrest := rest_whole tokens file
    rw [hwhole] at hrest
    rw [← hrest]
    simp [push, Nat.add_assoc]
  rw [hwhole]
  refine ⟨progress, _, _, _, indices, hloop, ?_, hlast ▸ hend.kind, ?_, hpairwise, ?_, ?_⟩
  · have hreaches : (t.push ((ofTokens tokens file).rest ++ [])).Reaches (t.push []) :=
      reaches_push (by rwa [List.append_nil])
    rwa [List.append_nil] at hreaches
  · rw [hlast]
    unfold parse
    dsimp only
    cases programWithin (ofTokens tokens file).rest.length (ofTokens tokens file) with
    | mk statements errors => cases errors <;> rfl
  · rw [hpadded]
    exact hindices
  · intro i hmem
    have := hbounds i hmem
    rw [List.length_nil] at this
    omega

end

end Script

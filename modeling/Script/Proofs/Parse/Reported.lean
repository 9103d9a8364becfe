import Script.Proofs.Parse.Scans.Stmts

/-!
# What reading a program reports

A statement that is read takes tokens, and recovery behind one that is not read does too, so the
bound on the statements of a program is never met. Reading a source text fails with at least one
error, and with syntax errors alone.
-/

namespace Script

theorem kind_of_tokensFrom {p : Position} {cs : List Char} {e : Error}
    (h : tokensFrom p cs = .error e) : e.kind = .syntaxError := by
  fun_induction tokensFrom p cs with
  | case1 => cases h
  | case2 =>
    cases h
    rfl
  | case3 p c cs s hscan q hlexeme ih => exact ih h
  | case4 p c cs s hscan q kind text hlexeme ih =>
    cases htail : tokensFrom q s.rest with
    | ok tokens => simp [htail, Bind.bind, Except.bind, Pure.pure, Except.pure] at h
    | error e' =>
      simp only [htail, Bind.bind, Except.bind, Except.error.injEq] at h
      exact ih (htail.trans (h ▸ rfl))

namespace Cursor

theorem kind_stop_ofTokens (tokens : List Token) (file : String) :
    (ofTokens tokens file).stop.kind = .endOfFile := by
  unfold ofTokens
  dsimp only
  split
  · next stop _ hdrop =>
    have hhead := List.head?_dropWhile_not (fun token : Token => decide (token.kind ≠ .endOfFile))
      tokens
    rw [hdrop] at hhead
    simpa using hhead
  · rfl

/-- Nothing behind the first end-of-file token is read. -/
theorem rest_ofTokens {body tail : List Token} (file : String)
    (hbody : ∀ token ∈ body, token.kind ≠ .endOfFile)
    (htail : ∀ token ∈ tail.head?, token.kind = .endOfFile) :
    (ofTokens (body ++ tail) file).rest = body := by
  have hall : ∀ token ∈ body, decide (token.kind ≠ .endOfFile) = true :=
    fun token hmem => decide_eq_true (hbody token hmem)
  show (body ++ tail).takeWhile (fun token => decide (token.kind ≠ .endOfFile)) = body
  rw [List.takeWhile_append_of_pos hall]
  cases tail with
  | nil => simp
  | cons token tail => simp [htail token rfl]

/-- All tokens in front of the end of the file. -/
theorem push_rest (s : Cursor) : (push ⟨[], s.stop⟩ s.rest) = s := by
  unfold push
  rw [List.append_nil]

theorem hidden_end (behind : Option (List Token)) {stop : Token} (h : stop.kind = .endOfFile) :
    Hidden behind ⟨[], stop⟩ ⟨[], stop⟩ := by
  have helse : stop.kind ≠ .wordElse := by
    rw [h]
    decide
  exact ⟨h, h, helse, helse, .inr ⟨rfl, rfl⟩⟩

theorem length_recover_lt {s s' : Cursor} (hne : s.rest ≠ [])
    (hle : s'.rest.length ≤ s.rest.length) : (s.recover s').rest.length < s.rest.length := by
  have hpos := List.length_pos_iff.2 hne
  show (skipStatement _ s'.rest).length < s.rest.length
  rw [skipStatement_eq]
  cases hend : statementEnd _ s'.rest with
  | none => exact hpos
  | some rest => exact Nat.lt_of_lt_of_le (length_lt_of_statementEnd hend) hle

end Cursor

namespace Parser

open Cursor

section

variable {s s' : Cursor}

/-- One run, in front of the end of the file. -/
theorem stmt_alone (hstop : s.stop.kind = .endOfFile) :
    ∃ depth left, Moves 0 s.rest depth left ∧
      ((∃ first, PastStmt (statementEnd 0 s.rest) s.rest.length 0 depth left ∧
        stmt s = .ok first ⟨left, s.stop⟩) ∨
      ∃ e : Error, e.kind = .syntaxError ∧ stmt s = .error e ⟨left, s.stop⟩) := by
  have hwithin : Within (statementEnd 0 s.rest) s.rest.length 0 s.rest := ⟨Nat.le_refl _, rfl⟩
  obtain ⟨depth, left, hmoves, hresult⟩ :=
    scans_stmt (Int.le_refl 0) hwithin (hidden_end (statementEnd 0 s.rest) hstop)
  have hleft : push ⟨[], s.stop⟩ left = ⟨left, s.stop⟩ := by
    unfold push
    rw [List.append_nil]
  rw [push_rest, hleft] at hresult
  refine ⟨depth, left, hmoves, ?_⟩
  obtain ⟨first, hpast, heq, -⟩ | ⟨e, ⟨cause, hkind, rfl⟩, -, heq, -⟩ := hresult
  · exact .inl ⟨first, hpast, heq⟩
  · exact .inr ⟨.located cause _, hkind, heq⟩

theorem stmt_ok (hstop : s.stop.kind = .endOfFile) {first : Stmt} (h : stmt s = .ok first s') :
    s'.stop = s.stop ∧ s'.rest.length < s.rest.length := by
  obtain ⟨depth, left, -, ⟨_, hpast, heq⟩ | ⟨_, -, heq⟩⟩ := stmt_alone hstop
  · cases h.symm.trans heq
    exact ⟨rfl, hpast.elim Past.length_lt Past.length_lt⟩
  · cases h.symm.trans heq

theorem stmt_error (hstop : s.stop.kind = .endOfFile) {e : Error} (h : stmt s = .error e s') :
    s'.stop = s.stop ∧ s'.rest.length ≤ s.rest.length ∧ e.kind = .syntaxError := by
  obtain ⟨depth, left, hmoves, ⟨_, -, heq⟩ | ⟨_, hkind, heq⟩⟩ := stmt_alone hstop
  · cases h.symm.trans heq
  · cases h.symm.trans heq
    exact ⟨rfl, hmoves.length_le, hkind⟩

/-! ### Step by step -/

theorem programWithin_nil {b : Nat} (h : s.rest = []) : programWithin b s = ([], []) := by
  cases b with
  | zero => rfl
  | succ b => simp only [programWithin, h, List.isEmpty_nil, if_true]

theorem programWithin_ok {b : Nat} {first : Stmt} (hne : s.rest ≠ []) (h : stmt s = .ok first s') :
    programWithin (b + 1) s =
      (first :: (programWithin b s').1, (programWithin b s').2) := by
  rw [programWithin, if_neg (by simpa using hne), h]

theorem programWithin_error {b : Nat} {e : Error} (hne : s.rest ≠ []) (h : stmt s = .error e s') :
    programWithin (b + 1) s =
      ((programWithin b (s.recover s')).1, e :: (programWithin b (s.recover s')).2) := by
  rw [programWithin, if_neg (by simpa using hne), h]

/-- What holds of the error of a statement holds of all errors of a program. -/
theorem forall_programWithin {P : Error → Prop}
    (hstmt : ∀ s s' : Cursor, s.stop.kind = .endOfFile → ∀ e, stmt s = .error e s' → P e) (b : Nat)
    (hstop : s.stop.kind = .endOfFile) : ∀ e ∈ (programWithin b s).2, P e := by
  induction b generalizing s with
  | zero => exact nofun
  | succ b ih =>
    by_cases hne : s.rest = []
    · rw [programWithin_nil hne]
      exact nofun
    · cases hresult : stmt s with
      | ok first s' =>
        rw [programWithin_ok hne hresult]
        exact ih ((stmt_ok hstop hresult).1 ▸ hstop)
      | error e s' =>
        rw [programWithin_error hne hresult]
        have hrest : (s.recover s').stop.kind = .endOfFile :=
          (stmt_error hstop hresult).1 ▸ hstop
        exact List.forall_mem_cons.2 ⟨hstmt s s' hstop e hresult, ih hrest⟩

theorem kind_of_programWithin (b : Nat) (hstop : s.stop.kind = .endOfFile) :
    ∀ e ∈ (programWithin b s).2, e.kind = .syntaxError :=
  forall_programWithin (fun _ _ hstop _ h => (stmt_error hstop h).2.2) b hstop

/-- A bound that is large enough is as good as any other. -/
theorem programWithin_eq {b c : Nat} (hstop : s.stop.kind = .endOfFile) (hb : s.rest.length ≤ b)
    (hc : s.rest.length ≤ c) : programWithin b s = programWithin c s := by
  induction b generalizing c s with
  | zero =>
    have hrest : s.rest = [] := List.length_eq_zero_iff.1 (Nat.le_zero.1 hb)
    rw [programWithin_nil hrest, programWithin_nil hrest]
  | succ b ih =>
    by_cases hne : s.rest = []
    · rw [programWithin_nil hne, programWithin_nil hne]
    · have hpos := List.length_pos_iff.2 hne
      obtain ⟨c, rfl⟩ := Nat.exists_eq_add_one_of_ne_zero (n := c) (by omega)
      cases hstmt : stmt s with
      | ok first s' =>
        obtain ⟨hstop', hlt⟩ := stmt_ok hstop hstmt
        rw [programWithin_ok hne hstmt, programWithin_ok hne hstmt,
          ih (c := c) (hstop' ▸ hstop) (by omega) (by omega)]
      | error e s' =>
        obtain ⟨hstop', hle, -⟩ := stmt_error hstop hstmt
        have hlt := length_recover_lt hne hle
        have hstop'' : (s.recover s').stop.kind = .endOfFile := hstop' ▸ hstop
        rw [programWithin_error hne hstmt, programWithin_error hne hstmt,
          ih (c := c) hstop'' (by omega) (by omega)]

/-- The statements and the errors of all tokens that are left. -/
def outcome (s : Cursor) : List Stmt × List Error :=
  programWithin s.rest.length s

theorem outcome_nil (h : s.rest = []) : outcome s = ([], []) :=
  programWithin_nil h

theorem outcome_ok (hstop : s.stop.kind = .endOfFile) (hne : s.rest ≠ []) {first : Stmt}
    (h : stmt s = .ok first s') : outcome s = (first :: (outcome s').1, (outcome s').2) := by
  obtain ⟨hstop', hlt⟩ := stmt_ok hstop h
  have hpos := List.length_pos_iff.2 hne
  have hbound : s.rest.length = s.rest.length - 1 + 1 := by
    omega
  unfold outcome
  rw [hbound, programWithin_ok hne h,
    programWithin_eq (c := s'.rest.length) (hstop' ▸ hstop) (by omega) (Nat.le_refl _)]

theorem outcome_error (hstop : s.stop.kind = .endOfFile) (hne : s.rest ≠ []) {e : Error}
    (h : stmt s = .error e s') :
    outcome s = ((outcome (s.recover s')).1, e :: (outcome (s.recover s')).2) := by
  obtain ⟨hstop', hle, -⟩ := stmt_error hstop h
  have hlt := length_recover_lt hne hle
  have hstop'' : (s.recover s').stop.kind = .endOfFile := hstop' ▸ hstop
  have hbound : s.rest.length = s.rest.length - 1 + 1 := by
    omega
  unfold outcome
  rw [hbound, programWithin_error hne h,
    programWithin_eq (c := (s.recover s').rest.length) hstop'' (by omega) (Nat.le_refl _)]

end

end Parser

theorem parse_of_outcome {tokens : List Token} {file : String} {statements : List Stmt}
    {errors : List Error}
    (h : Parser.outcome (Cursor.ofTokens tokens file) = (statements, errors)) :
    (errors = [] → ∃ span, parse tokens file = .ok (.mk statements span)) ∧
      (errors ≠ [] → parse tokens file = .error errors) := by
  unfold Parser.outcome at h
  unfold parse
  dsimp only
  rw [h]
  cases errors with
  | nil => exact ⟨fun _ => ⟨_, rfl⟩, fun hne => absurd rfl hne⟩
  | cons e errors => exact ⟨nofun, fun _ => rfl⟩

theorem parse_ok_iff {tokens : List Token} {file : String} {statements : List Stmt} :
    (∃ span, parse tokens file = .ok (.mk statements span)) ↔
      Parser.outcome (Cursor.ofTokens tokens file) = (statements, []) := by
  constructor
  · rintro ⟨span, hparse⟩
    cases houtcome : Parser.outcome (Cursor.ofTokens tokens file) with
    | mk others errors =>
      obtain ⟨hok, herror⟩ := parse_of_outcome houtcome
      by_cases hnil : errors = []
      · obtain ⟨span', hparse'⟩ := hok hnil
        obtain ⟨rfl, -⟩ := Block.mk.inj (Except.ok.inj (hparse.symm.trans hparse'))
        rw [hnil]
      · cases hparse.symm.trans (herror hnil)
  · intro h
    exact (parse_of_outcome h).1 rfl

theorem parse_error {tokens : List Token} {file : String} {errors : List Error}
    (h : parse tokens file = .error errors) :
    errors ≠ [] ∧ ∀ e ∈ errors, e.kind = .syntaxError := by
  have hkind := Parser.kind_of_programWithin (Cursor.ofTokens tokens file).rest.length
    (Cursor.kind_stop_ofTokens tokens file)
  cases houtcome : Parser.outcome (Cursor.ofTokens tokens file) with
  | mk statements errors' =>
    obtain ⟨hok, herror⟩ := parse_of_outcome houtcome
    by_cases hnil : errors' = []
    · obtain ⟨span, hparse⟩ := hok hnil
      cases h.symm.trans hparse
    · obtain rfl := Except.error.inj (h.symm.trans (herror hnil))
      have herrors : (Parser.outcome (Cursor.ofTokens tokens file)).2 = errors := by
        rw [houtcome]
      exact ⟨hnil, herrors ▸ hkind⟩

theorem parseSource_error {source file : String} {errors : List Error}
    (h : parseSource source file = .error errors) :
    errors ≠ [] ∧ ∀ e ∈ errors, e.kind = .syntaxError := by
  unfold parseSource at h
  split at h
  · exact parse_error h
  · next e htokenize =>
    obtain rfl := Except.error.inj h
    refine ⟨by simp, ?_⟩
    intro e' hmem
    rw [List.mem_singleton.1 hmem]
    exact kind_of_tokensFrom htokenize

end Script

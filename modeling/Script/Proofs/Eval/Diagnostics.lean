import Script.Proofs.Eval.Identity
import Script.Proofs.Eval.Legible.Modules

/-!
# Diagnostics of programs

A program that fails is reported with one line for each of its errors, and the errors of a text that
cannot be read come in the order of the text. Only one thing breaks a line: the text of a value that
is called but cannot be, since it is shown as it is.
-/

namespace Script

namespace Cause

/-- A message of one line shows no value that breaks it. -/
theorem Quotes.unbroken {value : String} {cause : Cause} (h : cause.Quotes value)
    (hmessage : Unbroken cause.message) : Unbroken value := by
  rw [unbroken_message] at hmessage
  induction h with
  | notCallable => exact hmessage
  | @moduleFailed module e _ ih =>
    have hinner : Unbroken e.message := (unbroken_append.1 hmessage).2
    exact ih ((unbroken_message _).1 hinner)

/-- A legible message is broken by nothing else. -/
theorem Legible.unbroken_message {cause : Cause} (h : cause.Legible)
    (hvalues : ∀ value, cause.Quotes value → Unbroken value) : Unbroken cause.message := by
  obtain hraw | ⟨value, hvalue, hquotes⟩ := h
  · exact cause.unbroken_message.2 hraw
  · exact absurd (hvalues value hquotes) hvalue

end Cause

/-! ### Reports -/

namespace Failure

/-- What is reported, one text for each error. -/
def lines : Failure → List String
  | program e =>
    if e.isFatal then [s!"FATAL: system error occured: {e.message}"]
    else [s!"ERROR:{e.position.line}: {e.message}"]
  | syntaxErrors errors => errors.map fun e => s!"ERROR:{e.position.line}: {e.message}"
  | other => [s!"ERROR: {other.message}"]

/-- The report is written line by line: every text is a line and is ended, and syntax errors come in
the order of the text. -/
structure LineByLine (failure : Failure) : Prop where
  unbroken : ∀ line ∈ failure.lines, Unbroken line
  written (before : ByteArray) : failure.report ⟨before, none⟩ =
    (⟨before ++ (String.join (failure.lines.map (· ++ "\n"))).toUTF8, none⟩, none)
  ordered (errors : List Error) : failure = .syntaxErrors errors →
    errors ≠ [] ∧ errors.Pairwise fun e e' => e.position.offset < e'.position.offset

theorem diagnostics_eq_lines (failure : Failure) :
    failure.diagnostics = failure.lines.map (· ++ "\n") := by
  cases failure with
  | syntaxErrors errors =>
    rw [lines, List.map_map]
    rfl
  | program e =>
    unfold diagnostics lines
    dsimp only
    split <;> rfl
  | _ => rfl

end Failure

theorem Sink.writeAll_unlimited (before : ByteArray) (texts : List String) :
    writeAll ⟨before, none⟩ texts = (⟨before ++ (String.join texts).toUTF8, none⟩, true) := by
  induction texts generalizing before with
  | nil => simp [writeAll, String.join]
  | cons text texts ih =>
    have hwrite : write ⟨before, none⟩ text = (⟨before ++ text.toUTF8, none⟩, true) := rfl
    rw [writeAll, hwrite]
    dsimp only
    rw [ih, String.join_cons, ByteArray.append_assoc]
    exact congrArg (fun bytes => (Sink.mk (before ++ bytes) none, true))
      String.toByteArray_append.symm

theorem Failure.report_unlimited (failure : Failure) (before : ByteArray) :
    failure.report ⟨before, none⟩ =
      (⟨before ++ (String.join (failure.lines.map (· ++ "\n"))).toUTF8, none⟩, none) := by
  rw [report, Sink.writeAll_unlimited, diagnostics_eq_lines]

/-! ### Programs -/

theorem unbroken_located (e : Error) :
    Unbroken s!"ERROR:{e.position.line}: {e.message}" ↔ Unbroken e.message := by
  have hwords : Unbroken "ERROR:" ∧ Unbroken ": " := by decide
  simp only [unbroken_append, unbroken_toString, unbroken_nat, hwords, true_and]

theorem unbroken_fatal (e : Error) :
    Unbroken s!"FATAL: system error occured: {e.message}" ↔ Unbroken e.message := by
  have hwords : Unbroken "FATAL: system error occured: " := by decide
  simp only [unbroken_append, unbroken_toString, hwords, true_and]

theorem Failure.unbroken_program (e : Error) :
    (∀ line ∈ (program e).lines, Unbroken line) ↔ Unbroken e.message := by
  unfold lines
  dsimp only
  split
  · rw [List.forall_mem_singleton, unbroken_fatal]
  · rw [List.forall_mem_singleton, unbroken_located]

/-- The failures that a program may have. -/
theorem failure_of_execute {ctx : Context} {fuel : Nat} {source : String} {m n : Machine}
    {failure : Failure} (h : execute fuel ctx source m = (.failed failure, n)) :
    (∃ errors, parseSource source ctx.file = .error errors ∧ failure = .syntaxErrors errors) ∨
      failure = .missingEntryPoint ∨ ∃ e, failure = .program e := by
  have hstop {stop : Stop} {k : Machine}
      (h : (Outcome.ofStop stop, k) = (Outcome.failed failure, n)) : ∃ e, failure = .program e := by
    cases stop with
    | outOfFuel => cases h
    | failed e =>
      cases h
      exact ⟨e, rfl⟩
  rw [execute] at h
  split at h
  · next errors hparse =>
    cases h
    exact .inl ⟨errors, hparse, rfl⟩
  · split at h
    · exact .inr (.inr (hstop h))
    · split at h
      · cases h
        exact .inr (.inl rfl)
      · split at h
        · exact .inr (.inr (hstop h))
        · cases h

/-- The report of a program is written line by line, whatever went wrong, unless a value was called
that cannot be called and whose text is of more than one line. -/
theorem Idle.execute_reports {ctx : Context} {m : Machine} (h : Idle ctx m)
    (hlibrary : ctx.library.Legible) (fuel : Nat) (source : String) {failure : Failure}
    {n : Machine} (hfails : execute fuel ctx source m = (.failed failure, n)) :
    failure.LineByLine ↔
      ∀ e value, failure = .program e → e.cause.Quotes value → Unbroken value := by
  have hlines (hunbroken : ∀ line ∈ failure.lines, Unbroken line)
      (hordered : ∀ errors, failure = .syntaxErrors errors →
        errors ≠ [] ∧ errors.Pairwise fun e e' => e.position.offset < e'.position.offset) :
      failure.LineByLine :=
    ⟨hunbroken, failure.report_unlimited, hordered⟩
  obtain ⟨errors, hparse, rfl⟩ | rfl | ⟨e, rfl⟩ := failure_of_execute hfails
  · obtain ⟨hordered, hmessages⟩ := parseSource_reports hparse
    refine iff_of_true (hlines ?_ ?_) nofun
    · exact List.forall_mem_map.2 fun e hmem => (unbroken_located e).2 (hmessages e hmem)
    · rintro _ ⟨⟩
      exact ⟨(parseSource_error hparse).1, hordered⟩
  · refine iff_of_true (hlines ?_ nofun) nofun
    decide
  · have hlegible : e.cause.Legible :=
      (legible_execute hlibrary fuel source (h.legible hlibrary)).2 e (by rw [hfails])
    constructor
    · rintro hreport _ value ⟨⟩ hquotes
      exact hquotes.unbroken ((Failure.unbroken_program e).1 hreport.unbroken)
    · intro hvalues
      refine hlines ((Failure.unbroken_program e).2 ?_) nofun
      exact hlegible.unbroken_message fun value => hvalues e value rfl

theorem Library.legible_standard : Library.standard.Legible :=
  fun f hf => absurd hf (notMem_standard f)

/-- A list that is called is shown with its strings quoted, so the newline in one of them breaks no
line. -/
theorem Idle.execute_reports_of_list :
    let ctx : Context := ⟨"main.vi", false, 200, .standard, .empty⟩
    let source := "fn main(argv) \x7b\n    [\"a\\nb\"]();\n\x7d"
    let run := execute 4 ctx source (.first ctx (.empty none))
    let e : Error := ⟨.notCallable "[\"a\\nb\"]", ⟨20, 2, "main.vi"⟩, some .expression⟩
    run.1 = .failed (.program e) ∧ (Failure.program e).LineByLine ∧
      (Failure.program e).lines = ["ERROR:2: [\"a\\nb\"] is not callable"] := by
  intro ctx source run e
  have hfails : run.1 = .failed (.program e) := Outcome.eq_of_error? (by decide +kernel)
  have hline : Unbroken "[\"a\\nb\"]" := by decide
  refine ⟨hfails, ((Idle.first _).execute_reports Library.legible_standard 4 source
    (Prod.ext hfails rfl)).2 ?_, by decide +kernel⟩
  rintro _ value ⟨⟩ ⟨⟩
  exact hline

/-- A string that is called is shown as it is, and its newline breaks the line. -/
theorem execute_breaks_of_string :
    let ctx : Context := ⟨"main.vi", false, 200, .standard, .empty⟩
    let source := "fn main(argv) \x7b\n    \"a\\nb\"();\n\x7d"
    let run := execute 4 ctx source (.first ctx (.empty none))
    ∃ failure, run.1 = .failed failure ∧
      failure.report ⟨.empty, none⟩ =
        (⟨"ERROR:2: a\nb is not callable\n".toUTF8, none⟩, none) ∧
      ¬failure.LineByLine := by
  intro ctx source run
  let e : Error := ⟨.notCallable "a\nb", ⟨20, 2, "main.vi"⟩, some .expression⟩
  have hfails : run.1 = .failed (.program e) := Outcome.eq_of_error? (by decide +kernel)
  have hlines : (Failure.program e).lines = ["ERROR:2: a\nb is not callable"] := by decide +kernel
  refine ⟨.program e, hfails, by rw [Failure.report_unlimited, hlines]; rfl, fun hreport => ?_⟩
  have hbroken := hreport.unbroken "ERROR:2: a\nb is not callable" (by rw [hlines]; simp)
  exact absurd hbroken (by decide)

end Script

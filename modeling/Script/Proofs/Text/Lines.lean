import Script.Failure

/-!
# Texts of one line

A quoted text stands on one line, and so does a number. So the message of an error does, unless one
text breaks it that the message shows as it is.
-/

namespace Script

/-- No line ends inside of the text. -/
def Unbroken (s : String) : Prop := '\n' ∉ s.toList

instance (s : String) : Decidable (Unbroken s) :=
  inferInstanceAs (Decidable (¬_))

variable {s t : String}

theorem unbroken_empty : Unbroken "" := by
  decide

theorem unbroken_append : Unbroken (s ++ t) ↔ Unbroken s ∧ Unbroken t := by
  simp [Unbroken]

theorem unbroken_toString (s : String) : Unbroken (toString s) ↔ Unbroken s :=
  Iff.rfl

theorem not_mem_toDigits (n : Nat) : '\n' ∉ Nat.toDigits 16 n := by
  have hdigit : ∀ k < 16, '\n' ≠ Nat.digitChar k := by decide
  induction n using Nat.strongRecOn with
  | ind n ih =>
    rw [Nat.toDigits_eq_if (by decide)]
    split
    · next hlt => simp [hdigit n hlt]
    · next hle =>
      have hlast := hdigit (n % 16) (Nat.mod_lt n (by decide))
      simp [ih (n / 16) (by omega), hlast]

theorem not_mem_quotedChar (c : Char) : '\n' ∉ quotedChar c := by
  unfold quotedChar
  repeat' split
  all_goals simp [codePointEscape, not_mem_toDigits]
  all_goals exact Ne.symm ‹_›

theorem unbroken_quote (s : String) : Unbroken (quote s) := by
  simp [Unbroken, quote, quotedChars, not_mem_quotedChar]

theorem unbroken_repr (n : Nat) : Unbroken n.repr := by
  intro hmem
  rw [Nat.toList_repr] at hmem
  exact absurd (Nat.isDigit_of_mem_toDigits (by decide) (by decide) hmem) (by decide)

theorem unbroken_nat (n : Nat) : Unbroken (toString n) :=
  unbroken_repr n

theorem unbroken_int (n : Int) : Unbroken (toString n) := by
  cases n with
  | ofNat n => exact unbroken_repr n
  | negSucc n =>
    show Unbroken ("-" ++ (n + 1).repr)
    exact unbroken_append.2 ⟨by decide, unbroken_repr _⟩

theorem unbroken_name (statement : StmtKind) : Unbroken statement.name := by
  cases statement <;> decide

namespace Cause

/-- The text that the message of a cause shows as it is. -/
def raw : Cause → String
  | unexpectedTokenDetailed _ message | moduleFailed _ message | panic message => message
  | notCallable value => value
  | invalidOperation operator _ _ => operator
  | _ => ""

/-- The message stands on one line if that text does. -/
theorem unbroken_message (cause : Cause) : Unbroken cause.message ↔ Unbroken cause.raw := by
  cases cause
  all_goals
    unfold message raw
    dsimp only
    simp +decide only [unbroken_append, unbroken_toString, unbroken_quote, unbroken_nat,
      unbroken_int, unbroken_name, and_true, true_and]

/-- The cause shows the text of a value that cannot be called, in its own message or in that of the
module that has failed. -/
inductive Quotes (value : String) : Cause → Prop
  | notCallable : Quotes value (.notCallable value)
  | moduleFailed {module : String} {e : Error} : e.cause.Quotes value →
    Quotes value (.moduleFailed module s!"line {e.position.line}: {e.message}")

/-- The message stands on one line, or it is broken by a value that cannot be called. -/
def Legible (cause : Cause) : Prop :=
  Unbroken cause.raw ∨ ∃ value, ¬Unbroken value ∧ cause.Quotes value

theorem legible_notCallable (value : String) : (notCallable value).Legible := by
  by_cases h : Unbroken value
  · exact .inl h
  · exact .inr ⟨value, h, .notCallable⟩

/-- The message of a module that has failed is as legible as the one it repeats. -/
theorem legible_moduleFailed (module : String) {e : Error} (h : e.cause.Legible) :
    (moduleFailed module s!"line {e.position.line}: {e.message}").Legible := by
  obtain h | ⟨value, hvalue, hquotes⟩ := h
  · have hline : Unbroken "line " ∧ Unbroken ": " := by decide
    have hmessage : Unbroken e.message := e.cause.unbroken_message.2 h
    left
    simp only [raw, unbroken_append, unbroken_toString, unbroken_nat, hline, hmessage, and_self]
  · exact .inr ⟨value, hvalue, .moduleFailed hquotes⟩

end Cause

/-! ### Files -/

theorem ReadError.unbroken_message {e : ReadError} (h : ∀ message, e ≠ .other message) :
    Unbroken e.message := by
  cases e with
  | other message => exact absurd rfl (h message)
  | _ => decide

namespace FileTree

variable {tree : FileTree} {e : ReadError}

theorem ne_other_of_walk {location : Location} {pieces : List String}
    (h : tree.walk location pieces = .error e) (message : String) : e ≠ .other message := by
  fun_induction walk tree location pieces with
  | case1 => cases h
  | case2 | case3 | case6 | case8 =>
    cases h
    exact nofun
  | case4 | case5 | case7 =>
    next ih => exact ih h

theorem ne_other_of_locate {path : String} (h : tree.locate path = .error e) (message : String) :
    e ≠ .other message := by
  unfold locate at h
  split at h
  · cases h
    exact nofun
  · split at h
    · cases h
      exact nofun
    · exact ne_other_of_walk h message

/-- What keeps a file from being read is one of the reasons that have words of their own. -/
theorem ne_other_of_read {path : String} (h : tree.read path = .error e) (message : String) :
    e ≠ .other message := by
  unfold read at h
  split at h
  · cases h
    exact nofun
  · cases hplace : tree.locate path with
    | error e' =>
      simp only [hplace, Bind.bind, Except.bind] at h
      exact Except.error.inj h ▸ ne_other_of_locate hplace message
    | ok location =>
      simp only [hplace, Bind.bind, Except.bind, Pure.pure, Except.pure] at h
      split at h
      · cases h
        exact nofun
      · cases h
        exact nofun
      · split at h
        · cases h
        · cases h
          exact nofun

end FileTree

end Script

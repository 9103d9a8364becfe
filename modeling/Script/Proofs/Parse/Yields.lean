import Script.Proofs.Parse.Grammar
import Script.Proofs.Parse.Reported

/-!
# What a success says

Whenever a parser succeeds, the tokens it took are related to its result and to what is left. The
relation is put together from those of its parts, from left to right. Tokens are taken to be proper:
they end with an end of file, and numbers are runs of digits.
-/

namespace Script

open Grammar

/-- A decimal numeral without a sign. -/
def Token.IsNumeral (token : Token) : Prop :=
  token.text.toList ≠ [] ∧ token.text.toList.all Char.isDigit

instance (token : Token) : Decidable token.IsNumeral :=
  inferInstanceAs (Decidable (_ ∧ _))

/-- The tokens end with an end of file, and numbers are written in digits. -/
structure Cursor.Proper (s : Cursor) : Prop where
  stop : s.stop.kind = .endOfFile
  numerals : ∀ token ∈ s.rest, token.kind = .number → token.IsNumeral

theorem Cursor.Proper.of_append {s s' : Cursor} {taken : List Token} (h : s.Proper)
    (hstop : s'.stop = s.stop) (hrest : s.rest = taken ++ s'.rest) : s'.Proper :=
  ⟨hstop ▸ h.stop, fun token hmem =>
    h.numerals token (hrest ▸ List.mem_append_right taken hmem)⟩

theorem Cursor.Proper.rest_eq {s : Cursor} (h : s.Proper) (hkind : s.current.kind ≠ .endOfFile) :
    s.rest = s.current :: s.advance.rest := by
  cases hrest : s.rest with
  | nil => exact absurd (by simpa [current, hrest] using h.stop) hkind
  | cons token rest => simp [current, advance, hrest]

theorem Integer.ofText?_of_isNumeral {token : Token} {value : Integer} (h : token.IsNumeral) :
    Integer.ofText? token.text = some value ↔ value.val = digitsValue token.text.toList := by
  obtain ⟨hne, hdigits⟩ := h
  have hvalue : decimalValue? token.text.toList = some (digitsValue token.text.toList) := by
    rw [decimalValue?, if_pos ⟨hne, hdigits⟩]
    rfl
  have hof (n : Nat) : Integer.ofInt? n = some value ↔ value.val = n := by
    rw [Integer.ofInt?]
    split
    · rw [Option.some.injEq, Integer.ext_iff]
      exact eq_comm
    · next hout =>
      refine ⟨nofun, fun heq => absurd ?_ hout⟩
      rw [← heq]
      exact ⟨value.min_le, value.le_max⟩
  rw [← hof]
  rw [Integer.ofText?]
  split
  · next cs htext =>
    rw [htext] at hdigits
    simp at hdigits
  · next cs htext =>
    rw [htext] at hdigits
    simp at hdigits
  · rw [hvalue]
    rfl

namespace Parser

variable {s : Cursor}

theorem length_le_of_append {before taken after : List Token} (h : before = taken ++ after) :
    after.length ≤ before.length :=
  List.IsSuffix.length_le ⟨taken, h.symm⟩

/-- Every success takes tokens that `R` relates to the result and to what is left. -/
def Yields (R : List Token → α → Cursor → Prop) (p : Parser α) (s : Cursor) : Prop :=
  s.Proper → ∀ a s', p s = .ok a s' →
    s'.stop = s.stop ∧ ∃ taken, s.rest = taken ++ s'.rest ∧ R taken a s'

namespace Yields

variable {R R' : List Token → α → Cursor → Prop}

theorem imp {p : Parser α} (hp : Yields R p s)
    (h : ∀ taken a s', s.rest = taken ++ s'.rest → R taken a s' → R' taken a s') :
    Yields R' p s := by
  intro hproper a s' hresult
  obtain ⟨hstop, taken, hrest, hR⟩ := hp hproper a s' hresult
  exact ⟨hstop, taken, hrest, h taken a s' hrest hR⟩

theorem pure {a : α} (h : R [] a s) : Yields R (Pure.pure a) s := by
  intro _ b s' hresult
  cases hresult
  exact ⟨rfl, [], rfl, h⟩

theorem bind {p : Parser α} {f : α → Parser β} {R' : List Token → β → Cursor → Prop}
    (hp : Yields R p s)
    (hf : ∀ a s' taken, s.rest = taken ++ s'.rest → R taken a s' →
      Yields (fun taken' => R' (taken ++ taken')) (f a) s') : Yields R' (p >>= f) s := by
  intro hproper b s'' hresult
  cases h : p s with
  | error e s' => simp only [Bind.bind, EStateM.bind, h] at hresult; cases hresult
  | ok a s' =>
    simp only [Bind.bind, EStateM.bind, h] at hresult
    obtain ⟨hstop, taken, hrest, hR⟩ := hp hproper a s' h
    obtain ⟨hstop', taken', hrest', hR'⟩ :=
      hf a s' taken hrest hR (hproper.of_append hstop hrest) b s'' hresult
    exact ⟨hstop'.trans hstop, taken ++ taken', by rw [hrest, hrest', List.append_assoc], hR'⟩

theorem look {p : Parser α} {a : α} {f : α → Parser β} {R : List Token → β → Cursor → Prop}
    (hp : p s = .ok a s) (h : Yields R (f a) s) : Yields R (p >>= f) s := by
  intro hproper b s' hresult
  simp only [Bind.bind, EStateM.bind, hp] at hresult
  exact h hproper b s' hresult

theorem fail {p : Parser α} {e : Error} (hp : p s = .error e s) : Yields R p s := by
  intro _ a s' hresult
  rw [hp] at hresult
  cases hresult

theorem bounded {p : Nat → Parser α} (h : Yields R (p s.rest.length) s) :
    Yields R (bounded p) s :=
  h

/-- Taking the current token. -/
theorem advance {kind : TokenKind} (hkind : s.current.kind = kind) (h : kind ≠ .endOfFile) :
    Yields (fun taken token _ => taken = [token] ∧ token = s.current) advance s := by
  intro hproper token s' hresult
  cases hresult
  exact ⟨Cursor.stop_advance s, [s.current], hproper.rest_eq (hkind ▸ h), rfl, rfl⟩

theorem skip {kind : TokenKind} (hkind : s.current.kind = kind) (h : kind ≠ .endOfFile) :
    Yields (fun taken _ _ => taken = [s.current]) skip s := by
  intro hproper _ s' hresult
  cases hresult
  exact ⟨Cursor.stop_advance s, [s.current], hproper.rest_eq (hkind ▸ h), rfl⟩

theorem expect {kind : TokenKind} (h : kind ≠ .endOfFile) :
    Yields (fun taken token _ => taken = [token] ∧ token.kind = kind) (expect kind) s := by
  apply look rfl
  split
  · next hkind =>
    refine (advance hkind h).imp fun taken token _ _ htoken => ⟨htoken.1, ?_⟩
    rw [htoken.2, hkind]
  · exact fail rfl

theorem expectBecause {kind : TokenKind} (message : String) (h : kind ≠ .endOfFile) :
    Yields (fun taken token _ => taken = [token] ∧ token.kind = kind)
      (expectBecause kind message) s := by
  apply look rfl
  split
  · next hkind =>
    refine (advance hkind h).imp fun taken token _ _ htoken => ⟨htoken.1, ?_⟩
    rw [htoken.2, hkind]
  · exact fail rfl

end Yields

/-- The tokens of a list of items with the token that closes it. -/
def ListOf (D : List Token → α → Prop) (close : TokenKind) (taken : List Token)
    (result : List α × Token) : Prop :=
  ∃ (items : List (List Token × α)) (tokens : List Token),
    taken = tokens ++ [result.2] ∧ result.2.kind = close ∧ result.1 = items.map Prod.snd ∧
    (∀ item ∈ items, D item.1 item.2) ∧ Commas (items.map Prod.fst) tokens

theorem yields_items {D : List Token → α → Prop} {item : Parser α} {close : TokenKind}
    {message : String} {n : Nat}
    (hitem : ∀ s, s.rest.length ≤ n → Yields (fun taken a _ => D taken a) item s)
    (hclose : close ≠ .endOfFile) (bound : Nat) (hn : s.rest.length ≤ n) :
    Yields (fun taken result _ => ListOf D close taken result) (items item close message bound)
      s := by
  induction bound generalizing s with
  | zero => exact .fail rfl
  | succ bound ih =>
    rw [items]
    apply Yields.look rfl
    split
    · next hkind =>
      apply Yields.bind (.skip hkind hclose)
      intro _ s' taken _ htaken
      apply Yields.pure
      exact ⟨[], [], by simp [htaken], hkind, rfl, by simp, .nil⟩
    · apply Yields.bind (hitem s hn)
      intro a s' taken hrest ha
      apply Yields.look rfl
      have hn' : s'.rest.length ≤ n := Nat.le_trans (length_le_of_append hrest) hn
      split
      · next hcomma =>
        apply Yields.bind (.skip hcomma (by decide))
        intro _ s'' comma hrest' htaken
        have hn'' : s''.rest.length ≤ n := Nat.le_trans (length_le_of_append hrest') hn'
        apply Yields.bind (ih hn'')
        intro result _ tokens' _ hresult
        apply Yields.pure
        obtain ⟨items, tokens, htokens, hkind, hitems, hall, hcommas⟩ := hresult
        refine ⟨(taken, a) :: items, taken ++ s'.current :: tokens, ?_, hkind, by simp [hitems], ?_,
          .cons hcomma hcommas⟩
        · simp [htaken, htokens]
        · simpa using ⟨ha, fun tokens a hmem => hall (tokens, a) hmem⟩
      · split
        · next hkind =>
          apply Yields.bind (.skip hkind hclose)
          intro _ _ closing _ htaken
          apply Yields.pure
          exact ⟨[(taken, a)], taken, by simp [htaken], hkind, rfl, by simpa using ha, .last⟩
        · exact .fail rfl

end Parser

end Script

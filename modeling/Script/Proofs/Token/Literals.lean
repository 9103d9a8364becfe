import Script.Proofs.Token.Layout

/-!
# What string literals stand for

What stands between the quotes of a literal is read twice: when its end is looked for, in steps of one
character or of a backslash and one character, and again by the decoder, in units of up to four
characters. Every unit is made of whole steps, so the two never disagree about where an escape ends.

A backslash and `x` with two hexadecimal digits name a character, and without any are kept. With one
digit alone they are no escape of the language, but the decoder takes them for one.
-/

namespace Script

namespace StringLiteral

/-- What the pattern of literals takes at a time. -/
inductive Step : List Char → Prop
  | plain {c : Char} : c ≠ '"' → c ≠ '\\' → c ≠ '\n' → Step [c]
  | escaped {c : Char} : c ≠ '\n' → Step ['\\', c]

/-- What a character names behind a backslash. -/
def named? : Char → Option Char
  | 'n' => some '\n'
  | 't' => some '\t'
  | 'r' => some '\r'
  | '\\' => some '\\'
  | '"' => some '"'
  | '0' => some '\x00'
  | _ => none

/-- A unit of a literal: a character, a backslash and a character, or a backslash and `x` with one
or two hexadecimal digits. -/
inductive Part where
  | plain (c : Char)
  | escape (c : Char)
  | digit (a : Char)
  | digits (a b : Char)

namespace Part

def written : Part → List Char
  | plain c => [c]
  | escape c => ['\\', c]
  | digit a => ['\\', 'x', a]
  | digits a b => ['\\', 'x', a, b]

def steps : Part → List (List Char)
  | plain c => [[c]]
  | escape c => [['\\', c]]
  | digit a => [['\\', 'x'], [a]]
  | digits a b => [['\\', 'x'], [a], [b]]

/-- What the language has a unit stand for: the escapes for their characters, anything else for
itself. -/
def meaning : Part → List Char
  | plain c => [c]
  | escape c => match named? c with
    | some named => [named]
    | none => ['\\', c]
  | digit a => ['\\', 'x', a]
  | digits a b => [Char.ofNat (16 * hexValue a + hexValue b)]

/-- What the decoder makes of a unit. -/
def decoded : Part → List Char
  | digit a => [Char.ofNat (hexValue a)]
  | part => part.meaning

theorem flatten_steps (part : Part) : part.steps.flatten = part.written := by
  cases part <;> rfl

theorem decoded_of_ne {part : Part} (h : ∀ a, part ≠ digit a) : part.decoded = part.meaning := by
  cases part with
  | digit a => exact absurd rfl (h a)
  | _ => rfl

end Part

/-- The units of a literal. A backslash and `x` take along as many hexadecimal digits as there are,
but no more than two. -/
inductive Splits : List Char → List Part → Prop
  | nil : Splits [] []
  | plain {c : Char} {cs : List Char} {parts : List Part} : c ≠ '"' → c ≠ '\\' → c ≠ '\n' →
    Splits cs parts → Splits (c :: cs) (.plain c :: parts)
  | escape {c : Char} {cs : List Char} {parts : List Part} : c ≠ '\n' →
    (c = 'x' → ∀ d ∈ cs.head?, ¬isHexDigit d) →
    Splits cs parts → Splits ('\\' :: c :: cs) (.escape c :: parts)
  | digit {a : Char} {cs : List Char} {parts : List Part} : isHexDigit a →
    (∀ d ∈ cs.head?, ¬isHexDigit d) →
    Splits cs parts → Splits ('\\' :: 'x' :: a :: cs) (.digit a :: parts)
  | digits {a b : Char} {cs : List Char} {parts : List Part} : isHexDigit a → isHexDigit b →
    Splits cs parts → Splits ('\\' :: 'x' :: a :: b :: cs) (.digits a b :: parts)

/-! ### Steps -/

theorem step_of_isHexDigit {c : Char} (h : isHexDigit c) : c ≠ '\\' ∧ Step [c] := by
  have hne {d : Char} (hd : isHexDigit d = false) : c ≠ d := by
    rintro rfl
    rw [hd] at h
    cases h
  exact ⟨hne (by decide), .plain (hne (by decide)) (hne (by decide)) (hne (by decide))⟩

/-- There is one way to read a text in steps. -/
theorem steps_unique {steps steps' : List (List Char)} (h : ∀ step ∈ steps, Step step)
    (h' : ∀ step ∈ steps', Step step) (heq : steps.flatten = steps'.flatten) : steps = steps' := by
  have ne_nil {step : List Char} (h : Step step) (more : List Char) : [] ≠ step ++ more := by
    cases h <;> nofun
  induction steps generalizing steps' with
  | nil =>
    cases steps' with
    | nil => rfl
    | cons step' steps' => exact absurd heq (ne_nil (h' _ List.mem_cons_self) _)
  | cons step steps ih =>
    cases steps' with
    | nil => exact absurd heq.symm (ne_nil (h _ List.mem_cons_self) _)
    | cons step' steps' =>
      obtain ⟨hstep, hsteps⟩ := List.forall_mem_cons.1 h
      obtain ⟨hstep', hsteps'⟩ := List.forall_mem_cons.1 h'
      rw [List.flatten_cons, List.flatten_cons] at heq
      obtain ⟨rfl, hrest⟩ : step = step' ∧ steps.flatten = steps'.flatten := by
        cases hstep with
        | plain _ hslash _ =>
          cases hstep' with
          | plain => simpa using heq
          | escaped => exact absurd (List.cons.inj heq).1 hslash
        | escaped =>
          cases hstep' with
          | plain _ hslash _ => exact absurd (List.cons.inj heq).1.symm hslash
          | escaped => simpa using heq
      rw [ih hsteps hsteps' hrest]

/-! ### Units -/

namespace Splits

variable {raw cs : List Char} {parts parts' : List Part}

theorem written (h : Splits raw parts) : parts.flatMap Part.written = raw := by
  induction h with
  | nil => rfl
  | plain _ _ _ _ ih | escape _ _ _ ih | digit _ _ _ ih | digits _ _ _ ih =>
    rw [List.flatMap_cons, ih]
    rfl

/-- The steps of the units are the steps of the literal. -/
theorem steps (h : Splits raw parts) :
    (∀ step ∈ parts.flatMap Part.steps, Step step) ∧ (parts.flatMap Part.steps).flatten = raw := by
  constructor
  · induction h with
    | nil => nofun
    | plain hquote hslash hline _ ih =>
      exact List.forall_mem_append.2 ⟨by simpa [Part.steps] using .plain hquote hslash hline, ih⟩
    | escape hline _ _ ih =>
      exact List.forall_mem_append.2 ⟨by simpa [Part.steps] using .escaped hline, ih⟩
    | digit ha _ _ ih =>
      refine List.forall_mem_append.2 ⟨?_, ih⟩
      simpa [Part.steps] using ⟨.escaped (by decide), (step_of_isHexDigit ha).2⟩
    | digits ha hb _ ih =>
      refine List.forall_mem_append.2 ⟨?_, ih⟩
      simpa [Part.steps] using
        ⟨.escaped (by decide), (step_of_isHexDigit ha).2, (step_of_isHexDigit hb).2⟩
  · have hparts : (parts.flatMap Part.steps).flatten = parts.flatMap Part.written := by
      have hsteps : List.flatten ∘ Part.steps = Part.written := funext Part.flatten_steps
      simp [List.flatMap_def, List.flatten_flatten, hsteps]
    rw [hparts, h.written]

theorem plain_inv {c : Char} (h : Splits (c :: cs) parts) (hc : c ≠ '\\') :
    ∃ parts', parts = .plain c :: parts' ∧ Splits cs parts' := by
  cases h with
  | plain _ _ _ hrest => exact ⟨_, rfl, hrest⟩
  | _ => exact absurd rfl hc

/-- A literal has units in one way only. -/
theorem unique (h : Splits raw parts) (h' : Splits raw parts') : parts = parts' := by
  induction h generalizing parts' with
  | nil =>
    cases h'
    rfl
  | plain _ hslash _ _ ih =>
    obtain ⟨parts', rfl, hrest⟩ := h'.plain_inv hslash
    rw [ih hrest]
  | escape _ hnext _ ih =>
    cases h' with
    | plain _ hslash _ _ => exact absurd rfl hslash
    | escape _ _ hrest => rw [ih hrest]
    | digit ha _ _ => exact absurd ha (hnext rfl _ rfl)
    | digits ha _ _ => exact absurd ha (hnext rfl _ rfl)
  | digit ha hnext _ ih =>
    cases h' with
    | plain _ hslash _ _ => exact absurd rfl hslash
    | escape _ hnext' _ => exact absurd ha (hnext' rfl _ rfl)
    | digit _ _ hrest => rw [ih hrest]
    | digits _ hb _ => exact absurd hb (hnext _ rfl)
  | digits ha hb _ ih =>
    cases h' with
    | plain _ hslash _ _ => exact absurd rfl hslash
    | escape _ hnext' _ => exact absurd ha (hnext' rfl _ rfl)
    | digit _ hnext' _ => exact absurd hb (hnext' _ rfl)
    | digits _ _ hrest => rw [ih hrest]

end Splits

/-- What can stand between quotes can be split into units. -/
theorem Body.splits {raw : List Char} (h : Body raw) : ∃ parts, Splits raw parts := by
  induction h with
  | nil => exact ⟨[], .nil⟩
  | plain hquote hslash hline _ ih =>
    obtain ⟨parts, hparts⟩ := ih
    exact ⟨_, .plain hquote hslash hline hparts⟩
  | @escaped c cs hline _ ih =>
    obtain ⟨parts, hparts⟩ := ih
    -- behind a backslash and `x`, the digits were units of their own so far
    by_cases hdigit : c = 'x' ∧ ∃ a rest, cs = a :: rest ∧ isHexDigit a
    · obtain ⟨rfl, a, rest, rfl, ha⟩ := hdigit
      obtain ⟨parts, rfl, hrest⟩ := hparts.plain_inv (step_of_isHexDigit ha).1
      by_cases hmore : ∃ b rest', rest = b :: rest' ∧ isHexDigit b
      · obtain ⟨b, rest, rfl, hb⟩ := hmore
        obtain ⟨parts, rfl, hmore⟩ := hrest.plain_inv (step_of_isHexDigit hb).1
        exact ⟨_, .digits ha hb hmore⟩
      · refine ⟨_, .digit ha (fun b hb hhex => hmore ?_) hrest⟩
        obtain ⟨rest, rfl⟩ := List.head?_eq_some_iff.1 hb
        exact ⟨b, rest, rfl, hhex⟩
    · refine ⟨_, .escape hline (fun hc a ha hhex => hdigit ⟨hc, ?_⟩) hparts⟩
      obtain ⟨rest, rfl⟩ := List.head?_eq_some_iff.1 ha
      exact ⟨a, rest, rfl, hhex⟩

/-! ### Decoding -/

theorem decode_plain {c : Char} (h : c ≠ '\\') (cs : List Char) :
    decode (c :: cs) = c :: decode cs := by
  rw [decode.eq_def]
  split <;> simp_all

theorem decode_named {c named : Char} (h : named? c = some named) (cs : List Char) :
    decode ('\\' :: c :: cs) = named :: decode cs := by
  unfold named? at h
  split at h <;> cases h <;> rfl

theorem decode_digit (a : Char) : decode ['\\', 'x', a] =
    if isHexDigit a then [Char.ofNat (hexValue a)] else ['\\', 'x', a] := by
  simp [decode]

theorem decode_unnamed {c : Char} {cs : List Char} (h : named? c = none)
    (hnext : c = 'x' → ∀ d ∈ cs.head?, ¬isHexDigit d) :
    decode ('\\' :: c :: cs) = '\\' :: c :: decode cs := by
  have hslash : c ≠ '\\' := by
    rintro rfl
    cases h
  by_cases hx : c = 'x'
  · subst hx
    match cs with
    | [] => rfl
    | [a] =>
      have hlast : decode [a] = [a] := by
        rw [decode.eq_def]
        split <;> simp_all [decode]
      rw [decode_digit, if_neg (hnext rfl a rfl), hlast]
    | a :: b :: cs => rw [decode, if_neg (hnext rfl a rfl)]
  · have hkept : decode ('\\' :: c :: cs) = '\\' :: decode (c :: cs) := by
      rw [decode.eq_def]
      split
      case h_10 heq =>
        obtain ⟨rfl, rfl⟩ := List.cons.inj heq
        rfl
      all_goals simp_all [named?]
    rw [hkept, decode_plain hslash]

/-- The decoder works unit by unit. -/
theorem Splits.decode_eq {raw : List Char} {parts : List Part} (h : Splits raw parts) :
    decode raw = parts.flatMap Part.decoded := by
  induction h with
  | nil => rfl
  | @plain _ cs _ _ hslash _ _ ih =>
    rw [decode_plain hslash cs, ih]
    rfl
  | @escape c cs parts _ hnext _ ih =>
    rw [List.flatMap_cons, ← ih, Part.decoded_of_ne fun _ => Part.noConfusion,
      Part.meaning]
    cases hnamed : named? c with
    | some named => exact decode_named hnamed cs
    | none => exact decode_unnamed hnamed hnext
  | @digit a cs parts ha hnext _ ih =>
    rw [List.flatMap_cons, ← ih]
    cases cs with
    | nil =>
      rw [decode_digit, if_pos ha]
      rfl
    | cons b cs =>
      rw [decode, if_pos ha, if_neg (hnext b rfl)]
      rfl
  | digits ha hb _ ih =>
    rw [decode, if_pos ha, if_pos hb, ih]
    rfl

/-! ### The literals of a text -/

/-- How the literal is read that stands in front of `after`, with these characters between its
quotes and these units. -/
structure Reading (raw after : List Char) (parts : List Part) : Prop where
  body : Body raw
  /-- No other quote can close the literal. -/
  closes : ∀ raw' after', Body raw' → raw ++ '"' :: after = raw' ++ '"' :: after' → raw' = raw
  splits : Splits raw parts
  /-- There is no other way to split it. -/
  unique : ∀ parts', Splits raw parts' → parts' = parts
  /-- The pattern takes the steps of the units one after the other. -/
  steps : ∀ steps : List (List Char), (∀ step ∈ steps, Step step) ∧ steps.flatten = raw ↔
    steps = parts.flatMap Part.steps

theorem Body.reading {raw : List Char} (h : Body raw) (after : List Char) :
    ∃ parts, Reading raw after parts := by
  obtain ⟨parts, hparts⟩ := h.splits
  obtain ⟨hsteps, hflatten⟩ := hparts.steps
  refine ⟨parts, h, fun raw' after' hbody htext => ?_, hparts, fun _ h => h.unique hparts, ?_⟩
  · have hsplit := split?_append hbody after'
    rw [← htext, split?_append h, Option.some.injEq, Prod.mk.injEq] at hsplit
    exact hsplit.1.symm
  · refine fun steps => ⟨fun ⟨hall, hraw⟩ => ?_, ?_⟩
    · exact steps_unique hall hsteps (hraw.trans hflatten.symm)
    · rintro rfl
      exact ⟨hsteps, hflatten⟩

end StringLiteral

open StringLiteral in
/-- The text of a string is what the units of its literal are decoded to, one after the other. That
is what they stand for if behind no backslash and `x` there is one hexadecimal digit alone. -/
theorem tokenize_decodes {source file : String} {tokens : List Token}
    (h : tokenize source file = .ok tokens) {t : Token} (ht : t ∈ tokens)
    (hkind : t.kind = .string) :
    ∃ before raw after parts, source.toList = before ++ ('"' :: raw ++ ['"']) ++ after ∧
      t.Covers file before ('"' :: raw ++ ['"']) ∧ Reading raw after parts ∧
      t.text = String.ofList (parts.flatMap Part.decoded) ∧
      ((∀ a, Part.digit a ∉ parts) → t.text = String.ofList (parts.flatMap Part.meaning)) := by
  have hstart : tokenize source file = tokensFrom (.behind file []) source.toList := by
    simp [tokenize, Position.start, Position.behind]
  have hlaid := laid_of_tokensFrom (hstart ▸ h)
  obtain ⟨before, lexeme, after, hsource, hcovers⟩ := hlaid.covers ht (by simp [hkind])
  have htext := hcovers.written.text_eq
  rw [if_pos hkind] at htext
  obtain ⟨raw, hbody, rfl, htext⟩ := htext
  obtain ⟨parts, hreading⟩ := hbody.reading after
  rw [hreading.splits.decode_eq] at htext
  refine ⟨before, raw, after, parts, hsource, hcovers, hreading, htext, fun hdigit => ?_⟩
  rw [htext, List.flatMap_def, List.flatMap_def]
  refine congrArg (fun pieces => String.ofList pieces.flatten) (List.map_congr_left ?_)
  rintro part hpart
  refine Part.decoded_of_ne fun a => ?_
  rintro rfl
  exact hdigit a hpart

open StringLiteral in
/-- Escapes of each kind, with `\q` that is none. -/
theorem tokenize_decodes_of_escapes :
    let source := "\"a\\n\\x41\\q\""
    ∃ t tokens, tokenize source "main" = .ok tokens ∧ t ∈ tokens ∧ t.kind = .string ∧
      t.text = "a\nA\\q" ∧
      ∃ before raw after parts, source.toList = before ++ ('"' :: raw ++ ['"']) ++ after ∧
        t.Covers "main" before ('"' :: raw ++ ['"']) ∧ Reading raw after parts ∧
        t.text = String.ofList (parts.flatMap Part.decoded) ∧
        ((∀ a, Part.digit a ∉ parts) → t.text = String.ofList (parts.flatMap Part.meaning)) := by
  intro source
  let t : Token := ⟨.string, "a\nA\\q", ⟨⟨0, 1, "main"⟩, ⟨11, 1, "main"⟩⟩⟩
  have htokens : tokenize source "main" = .ok [t, .endOfFile ⟨11, 1, "main"⟩] := by
    decide +kernel
  exact ⟨t, _, htokens, List.mem_cons_self, rfl, rfl,
    tokenize_decodes htokens List.mem_cons_self rfl⟩

open StringLiteral in
/-- A backslash and `x` with one digit alone are no escape, and are not kept. -/
theorem tokenize_misdecodes_of_digit :
    ∃ t tokens, tokenize "\"\\x4\"" "main" = .ok tokens ∧ t ∈ tokens ∧ t.kind = .string ∧
      Reading ['\\', 'x', '4'] [] [.digit '4'] ∧ t.text = "\x04" ∧
      t.text ≠ String.ofList ([Part.digit '4'].flatMap Part.meaning) := by
  let t : Token := ⟨.string, "\x04", ⟨⟨0, 1, "main"⟩, ⟨5, 1, "main"⟩⟩⟩
  have htokens : tokenize "\"\\x4\"" "main" = .ok [t, .endOfFile ⟨5, 1, "main"⟩] := by
    decide +kernel
  have hsplits : Splits ['\\', 'x', '4'] [.digit '4'] := .digit (by decide) (by simp) .nil
  have hbody : Body ['\\', 'x', '4'] :=
    .escaped (by decide) (.plain (by decide) (by decide) (by decide) .nil)
  obtain ⟨parts, hreading⟩ := hbody.reading []
  obtain rfl := hreading.unique _ hsplits
  exact ⟨t, _, htokens, List.mem_cons_self, rfl, hreading, rfl, by decide⟩

end Script

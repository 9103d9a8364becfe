import Script.Proofs.Parse.Unread

/-!
# The loops of the parser

A row of tokens is read turn by turn: one turn reads one item, operator, pair of brackets or
statement and goes on with what has been read so far, or it leaves the loop, with a result or an
error. Every turn that goes on leaves at least one token behind, never an end of the file, so a loop
comes to its end after finitely many turns, with what the parser makes of the whole row.
-/

namespace Script

namespace Cursor

/-- From one place to another one in the same tokens, not past an end of the file. -/
structure Reaches (s s' : Cursor) : Prop where
  stop : s'.stop = s.stop
  rest : ∃ taken, s.rest = taken ++ s'.rest ∧ ∀ token ∈ taken, token.kind ≠ .endOfFile

/-- At least one token further on. -/
structure Passes (s s' : Cursor) : Prop extends Reaches s s' where
  length_lt : s'.rest.length < s.rest.length

variable {s s' s'' : Cursor}

theorem Reaches.refl (s : Cursor) : s.Reaches s :=
  ⟨rfl, [], rfl, nofun⟩

theorem Reaches.trans (h : s.Reaches s') (h' : s'.Reaches s'') : s.Reaches s'' := by
  obtain ⟨hstop, taken, hrest, hkinds⟩ := h
  obtain ⟨hstop', taken', hrest', hkinds'⟩ := h'
  refine ⟨hstop'.trans hstop, taken ++ taken', by rw [hrest, hrest', List.append_assoc], ?_⟩
  intro token hmem
  exact (List.mem_append.1 hmem).elim (hkinds token) (hkinds' token)

theorem Reaches.length_le (h : s.Reaches s') : s'.rest.length ≤ s.rest.length := by
  obtain ⟨-, taken, hrest, -⟩ := h
  exact hrest ▸ List.length_append ▸ Nat.le_add_left ..

theorem Reaches.passes (h : s.Reaches s') (h' : s'.Passes s'') : s.Passes s'' :=
  ⟨h.trans h'.toReaches, Nat.lt_of_lt_of_le h'.length_lt h.length_le⟩

theorem Reaches.passes_of_ne (h : s.Reaches s') (hne : s ≠ s') : s.Passes s' := by
  refine ⟨h, Nat.lt_of_le_of_ne h.length_le fun hlength => hne ?_⟩
  obtain ⟨hstop, taken, hrest, -⟩ := h
  have hnil : taken = [] := by
    rw [hrest, List.length_append] at hlength
    exact List.length_eq_zero_iff.1 (by omega)
  rw [hnil, List.nil_append] at hrest
  obtain ⟨rest, stop⟩ := s
  obtain ⟨rest', stop'⟩ := s'
  obtain rfl : rest = rest' := hrest
  obtain rfl : stop' = stop := hstop
  rfl

theorem reaches_push {t : Cursor} {taken left : List Token}
    (hkinds : ∀ token ∈ taken ++ left, token.kind ≠ .endOfFile) :
    (t.push (taken ++ left)).Reaches (t.push left) :=
  ⟨rfl, taken, List.append_assoc .., fun token hmem => hkinds token (List.mem_append_left _ hmem)⟩

theorem rest_of_kind (hstop : s.stop.kind = .endOfFile) (hkind : s.current.kind ≠ .endOfFile) :
    s.rest = s.current :: s.advance.rest := by
  obtain ⟨_ | ⟨token, rest⟩, stop⟩ := s
  · exact absurd hstop hkind
  · rfl

/-- The step over any token but the end of the file. -/
theorem passes_advance (hstop : s.stop.kind = .endOfFile) (hkind : s.current.kind ≠ .endOfFile) :
    s.Passes s.advance := by
  have hrest := rest_of_kind hstop hkind
  refine ⟨⟨stop_advance s, [s.current], hrest, fun token hmem => ?_⟩, ?_⟩
  · rwa [List.mem_singleton.1 hmem]
  · rw [hrest]
    exact Nat.lt_succ_self _

/-- Every place is in front of the tokens up to the first end of the file. -/
theorem exists_push (hstop : s.stop.kind = .endOfFile) :
    ∃ tokens t, s = push t tokens ∧ (∀ token ∈ tokens, token.kind ≠ .endOfFile) ∧
      Parser.AtEnd t.current t := by
  obtain ⟨rest, stop⟩ := s
  induction rest with
  | nil => exact ⟨[], ⟨[], stop⟩, rfl, nofun, ⟨hstop, hstop, rfl⟩⟩
  | cons token rest ih =>
    by_cases hkind : token.kind = .endOfFile
    · exact ⟨[], ⟨token :: rest, stop⟩, rfl, nofun, ⟨hkind, hstop, rfl⟩⟩
    · obtain ⟨tokens, t, heq, hkinds, hend⟩ := ih hstop
      obtain ⟨rfl, rfl⟩ := Cursor.mk.inj heq
      exact ⟨token :: tokens, t, rfl, List.forall_mem_cons.2 ⟨hkind, hkinds⟩, hend⟩

end Cursor

namespace Parser

open Cursor

/-- A success leaves at least one token behind, and an error stands at the token it is about. -/
structure Takes (p : Parser α) : Prop where
  passes : ∀ {s : Cursor}, s.stop.kind = .endOfFile → ∀ {a s'}, p s = .ok a s' → s.Passes s'
  fails : ∀ {s : Cursor}, s.stop.kind = .endOfFile → ∀ {e s'}, p s = .error e s' →
    s.Reaches s' ∧ e.StandsAt s'

variable {s s' start : Cursor} {b c : Nat}

theorem Takes.of_agrees {p : Parser α} (h : ∀ {stop : Token} {t : Cursor}, AtEnd stop t →
    ∀ tokens, Agrees stop t tokens.length p p tokens) : Takes p := by
  constructor
  · intro s hstop a s' hresult
    obtain ⟨tokens, t, rfl, hkinds, hend⟩ := exists_push hstop
    obtain ⟨taken, left, rfl, ⟨_, hlength, -, hq⟩ | ⟨_, -, -, -, hq⟩⟩ := h hend tokens
    · cases hresult.symm.trans hq
      refine ⟨reaches_push hkinds, ?_⟩
      simp only [push, List.length_append] at hlength ⊢
      omega
    · cases hresult.symm.trans hq
  · intro s hstop e s' hresult
    obtain ⟨tokens, t, rfl, hkinds, hend⟩ := exists_push hstop
    obtain ⟨taken, left, rfl, ⟨_, -, -, hq⟩ | ⟨_, hstands, -, -, hq⟩⟩ := h hend tokens
    · cases hresult.symm.trans hq
    · cases hresult.symm.trans hq
      refine ⟨reaches_push hkinds, ?_⟩
      obtain ⟨cause, hkind, rfl⟩ := hstands
      exact ⟨cause, hkind, by rw [Agrees.current_push hend]⟩

theorem takes_expect {kind : TokenKind} (hkind : kind ≠ .endOfFile) : Takes (expect kind) :=
  .of_agrees fun hend _ => agrees_expect hend hkind

theorem takes_exprWithin (bound : Nat) (power : Power) : Takes (exprWithin bound power) :=
  .of_agrees fun hend _ => agrees_exprWithin hend power (.inl rfl)

theorem takes_identifier : Takes identifier :=
  .of_agrees fun hend _ => agrees_identifier hend

theorem takes_segment : Takes (do return (← expect .identifier).text) :=
  .of_agrees fun hend _ => agrees_segment hend

theorem takes_parameter : Takes parameter :=
  .of_agrees fun hend _ => agrees_parameter hend

theorem takes_stmtWithin (bound : Nat) : Takes (stmtWithin bound) :=
  .of_agrees fun hend _ => agrees_stmtWithin hend (.inl rfl)

/-- Where the tokens are in reach of both bounds, they read the same. -/
theorem eq_of_agrees {p : Nat → Parser α} (hstop : s.stop.kind = .endOfFile)
    (h : ∀ {stop : Token} {t : Cursor}, AtEnd stop t → ∀ tokens b b', Enough tokens.length b b' →
      Agrees stop t tokens.length (p b) (p b') tokens)
    (hb : s.rest.length ≤ b) (hc : s.rest.length ≤ c) : p b s = p c s := by
  obtain ⟨tokens, t, rfl, -, hend⟩ := exists_push hstop
  have hle : tokens.length ≤ (t.push tokens).rest.length := by
    simp [push]
  have hagrees (d : Nat) (hd : (t.push tokens).rest.length ≤ d) :
      Agrees t.current t tokens.length (p tokens.length) (p d) tokens :=
    h hend tokens _ _ (.inr ⟨Nat.le_refl _, Nat.le_trans hle hd⟩)
  exact (hagrees b hb).unique (hagrees c hc)

theorem exprWithin_bound (power : Power) (hstop : s.stop.kind = .endOfFile)
    (hb : s.rest.length ≤ b) (hc : s.rest.length ≤ c) :
    exprWithin b power s = exprWithin c power s :=
  eq_of_agrees (p := (exprWithin · power)) hstop
    (fun hend _ _ _ hbounds => agrees_exprWithin hend power hbounds) hb hc

theorem stmtWithin_bound (hstop : s.stop.kind = .endOfFile) (hb : s.rest.length ≤ b)
    (hc : s.rest.length ≤ c) : stmtWithin b s = stmtWithin c s :=
  eq_of_agrees hstop (fun hend _ _ _ hbounds => agrees_stmtWithin hend hbounds) hb hc

/-! ### Loops -/

/-- The run of a loop: turn after turn, until one leaves it. -/
inductive Loop (turn : α → Parser (α ⊕ β)) : α → Cursor → EStateM.Result Error Cursor β → Prop where
  | leaves {a b s s'} (h : turn a s = .ok (.inr b) s') : Loop turn a s (.ok b s')
  | fails {a e s s'} (h : turn a s = .error e s') : Loop turn a s (.error e s')
  | goesOn {a a' s s' result} (h : turn a s = .ok (.inl a') s') (hrest : Loop turn a' s' result) :
    Loop turn a s result

/-- Every turn that goes on leaves a token behind, and the loop ends with what the parser reads that
is given enough for all tokens. -/
structure Advances (turn : α → Parser (α ⊕ β)) (run : α → Nat → Parser β) : Prop where
  passes : ∀ {a a' s s'}, s.stop.kind = .endOfFile → turn a s = .ok (.inl a') s' → s.Passes s'
  ends : ∀ {b a s}, s.stop.kind = .endOfFile → s.rest.length ≤ b → Loop turn a s (run a b s)

theorem Loop.unique {turn : α → Parser (α ⊕ β)} {a : α} {result result' : EStateM.Result Error Cursor β}
    (h : Loop turn a s result) (h' : Loop turn a s result') : result = result' := by
  induction h with
  | leaves h =>
    cases h' with
    | leaves h' =>
      cases h.symm.trans h'
      rfl
    | fails h' => cases h.symm.trans h'
    | goesOn h' => cases h.symm.trans h'
  | fails h =>
    cases h' with
    | leaves h' => cases h.symm.trans h'
    | fails h' =>
      cases h.symm.trans h'
      rfl
    | goesOn h' => cases h.symm.trans h'
  | goesOn h _ ih =>
    cases h' with
    | leaves h' => cases h.symm.trans h'
    | fails h' => cases h.symm.trans h'
    | goesOn h' hrest =>
      cases h.symm.trans h'
      exact ih hrest

/-- Two bounds that are large enough give the same. -/
theorem Advances.bound_irrelevant {turn : α → Parser (α ⊕ β)} {run : α → Nat → Parser β}
    (h : Advances turn run) {a : α} (hstop : s.stop.kind = .endOfFile) (hb : s.rest.length ≤ b)
    (hc : s.rest.length ≤ c) : run a b s = run a c s :=
  (h.ends hstop hb).unique (h.ends hstop hc)

theorem Advances.of_unroll {turn : α → Parser (α ⊕ β)} {run : α → Nat → Parser β}
    (hpasses : ∀ {a a' s s'}, s.stop.kind = .endOfFile → turn a s = .ok (.inl a') s' → s.Passes s')
    (hzero : ∀ {a s}, s.current.kind = .endOfFile → Loop turn a s (run a 0 s))
    (hunroll : ∀ {a b s}, s.stop.kind = .endOfFile → s.rest.length ≤ b + 1 →
      run a (b + 1) s = (turn a >>= Sum.elim (run · b) Pure.pure) s) : Advances turn run := by
  refine ⟨hpasses, fun {b a s} hstop hbound => ?_⟩
  induction b generalizing a s with
  | zero =>
    apply hzero
    rwa [current_of_empty (List.length_eq_zero_iff.1 (Nat.le_zero.1 hbound))]
  | succ b ih =>
    rw [hunroll hstop hbound]
    simp only [Bind.bind, EStateM.bind]
    cases hturn : turn a s with
    | error e s' => exact .fails hturn
    | ok next s' =>
      cases next with
      | inr result => exact .leaves hturn
      | inl a' =>
        have h := hpasses hstop hturn
        exact .goesOn hturn (ih (h.stop ▸ hstop) (by have := h.length_lt; omega))

/-- What goes on from here is further than the start. -/
def GoesOn (start : Cursor) (turn : Parser (α ⊕ β)) (s : Cursor) : Prop :=
  ∀ a s', turn s = .ok (.inl a) s' → start.Passes s'

namespace GoesOn

theorem inr {b : β} : GoesOn start (Pure.pure (.inr b) : Parser (α ⊕ β)) s := by
  intro _ _ h
  cases h

theorem inl {a : α} (hpasses : start.Passes s) :
    GoesOn start (Pure.pure (.inl a) : Parser (α ⊕ β)) s := by
  intro _ _ h
  cases h
  exact hpasses

theorem failWith {cause : Token → Cause} :
    GoesOn start (Parser.failWith cause : Parser (α ⊕ β)) s := by
  intro _ _ h
  cases h

theorem current {f : Token → Parser (α ⊕ β)} (h : GoesOn start (f s.current) s) :
    GoesOn start (Parser.current >>= f) s :=
  h

theorem kind {f : TokenKind → Parser (α ⊕ β)} (h : GoesOn start (f s.current.kind) s) :
    GoesOn start (Parser.kind >>= f) s :=
  h

theorem ite {p : Prop} [Decidable p] {turn turn' : Parser (α ⊕ β)} (h : p → GoesOn start turn s)
    (h' : ¬p → GoesOn start turn' s) : GoesOn start (if p then turn else turn') s := by
  split
  · exact h ‹_›
  · exact h' ‹_›

theorem bind {p : Parser γ} {f : γ → Parser (α ⊕ β)} (hp : Takes p)
    (hstop : s.stop.kind = .endOfFile) (hreaches : start.Reaches s)
    (hf : ∀ a s', s'.stop.kind = .endOfFile → start.Passes s' → GoesOn start (f a) s') :
    GoesOn start (p >>= f) s := by
  intro a s'' h
  cases hresult : p s with
  | ok x s' =>
    have hpasses := hp.passes hstop hresult
    simp only [Bind.bind, EStateM.bind, hresult] at h
    exact hf x s' (hpasses.stop ▸ hstop) (hreaches.passes hpasses) a s'' h
  | error e s' =>
    simp only [Bind.bind, EStateM.bind, hresult] at h
    cases h

theorem skip {turn : Parser (α ⊕ β)} (hstop : s.stop.kind = .endOfFile)
    (hkind : s.current.kind ≠ .endOfFile) (hreaches : start.Reaches s)
    (h : s.advance.stop.kind = .endOfFile → start.Passes s.advance → GoesOn start turn s.advance) :
    GoesOn start (do Parser.skip; turn) s :=
  h (stop_advance s ▸ hstop) (hreaches.passes (passes_advance hstop hkind))

end GoesOn

/-! ### Items up to a closing token -/

/-- What was read before, with more items behind it. -/
def behind (done : List α) (p : Parser (List α × Token)) : Parser (List α × Token) := do
  let (more, closing) ← p
  return (done ++ more, closing)

def itemsTurn (item : Parser α) (close : TokenKind) (message : String) (done : List α) :
    Parser (List α ⊕ (List α × Token)) := do
  let next ← current
  if next.kind = close then
    skip
    return .inr (done, next)
  else
    let a ← item
    let next ← current
    if next.kind = .comma then
      skip
      return .inl (done ++ [a])
    else if next.kind = close then
      return .inl (done ++ [a])
    else
      unexpectedBecause message

section

variable {item : Parser α} {close : TokenKind} {message : String}

theorem itemsTurn_passes (hitem : Takes item) {done done' : List α}
    (hstop : s.stop.kind = .endOfFile)
    (h : itemsTurn item close message done s = .ok (.inl done') s') : s.Passes s' := by
  have hturn : GoesOn s (itemsTurn item close message done) s := by
    apply GoesOn.ite
    · intro _ _ _ h
      cases h
    · intro _
      refine .bind hitem hstop (.refl s) fun a s₁ hstop₁ hpasses => ?_
      apply GoesOn.ite
      · intro hcomma
        have hkind : s₁.current.kind ≠ .endOfFile := by
          rw [hcomma]
          decide
        exact .skip hstop₁ hkind hpasses.toReaches fun _ hpasses => .inl hpasses
      · intro _
        exact .ite (fun _ => .inl hpasses) fun _ => .failWith
  exact hturn _ _ h

/-- A row of items is read turn by turn. -/
theorem items_unroll (hitem : Takes item) (hclose : close ≠ .endOfFile) (done : List α)
    (hstop : s.stop.kind = .endOfFile) (hbound : s.rest.length ≤ b + 1) :
    behind done (items item close message (b + 1)) s =
      (itemsTurn item close message done >>=
        Sum.elim (behind · (items item close message b)) Pure.pure) s := by
  by_cases hkind : s.current.kind = close
  · simp [behind, items, itemsTurn, Bind.bind, EStateM.bind, current, hkind, skip, Pure.pure,
      EStateM.pure]
  · cases hresult : item s with
    | error e s' =>
      simp [behind, items, itemsTurn, Bind.bind, EStateM.bind, current, hkind, hresult]
    | ok a s₁ =>
      have hpasses := hitem.passes hstop hresult
      by_cases hcomma : s₁.current.kind = .comma
      · cases hrest : items item close message b s₁.advance <;>
          simp [behind, items, itemsTurn, Bind.bind, EStateM.bind, current, hkind, hresult, hcomma,
            skip, hrest, Pure.pure, EStateM.pure]
      · by_cases hclosed : s₁.current.kind = close
        · rw [hclosed] at hcomma
          have hlt := (passes_advance (hpasses.stop ▸ hstop) (hclosed ▸ hclose)).length_lt
          have hlt' := hpasses.length_lt
          obtain ⟨b, rfl⟩ := Nat.exists_eq_add_one_of_ne_zero (n := b) (by omega)
          simp [behind, items, itemsTurn, Bind.bind, EStateM.bind, current, hkind, hresult, hcomma,
            hclosed, skip, Pure.pure, EStateM.pure]
        · simp [behind, items, itemsTurn, Bind.bind, EStateM.bind, current, hkind, hresult, hcomma,
            hclosed, unexpectedBecause, Parser.failWith]

/-- Arguments, the elements of a list and parameters. -/
theorem items_advances (hitem : Takes item) (hrefuses : Refuses item) (hclose : close ≠ .endOfFile) :
    Advances (itemsTurn item close message)
      fun done bound => behind done (items item close message bound) := by
  refine .of_unroll (itemsTurn_passes hitem) (fun {done s} hend => .fails ?_)
    (items_unroll hitem hclose _)
  have hopen : s.current.kind ≠ close := hend ▸ hclose.symm
  simp only [itemsTurn, Bind.bind, EStateM.bind, current, if_neg hopen, hrefuses s hend]
  rfl

theorem behind_nil (p : Parser (List α × Token)) : behind [] p = p := by
  simp [behind]

theorem items_bound (hitem : Takes item) (hrefuses : Refuses item) (hclose : close ≠ .endOfFile)
    (hstop : s.stop.kind = .endOfFile) (hb : s.rest.length ≤ b) (hc : s.rest.length ≤ c) :
    items item close message b s = items item close message c s := by
  have h : behind [] (items item close message b) s = behind [] (items item close message c) s :=
    (items_advances hitem hrefuses hclose).bound_irrelevant hstop hb hc
  rwa [behind_nil, behind_nil] at h

end

/-! ### Items with a separator between them -/

def separatedTurn (item : Parser α) (separator : TokenKind) (done : List α) :
    Parser (List α ⊕ List α) := do
  if (← kind) = separator then
    skip
    let a ← item
    return .inl (done ++ [a])
  else
    return .inr done

/-- The items behind the first ones. -/
def separatedRest (item : Parser α) (separator : TokenKind) (done : List α) (bound : Nat) :
    Parser (List α) := do
  if (← kind) = separator then
    skip
    return done ++ (← separated item separator bound)
  else
    return done

section

variable {item : Parser α} {separator : TokenKind}

theorem separatedTurn_passes (hitem : Takes item) (hseparator : separator ≠ .endOfFile)
    {done done' : List α} (hstop : s.stop.kind = .endOfFile)
    (h : separatedTurn item separator done s = .ok (.inl done') s') : s.Passes s' := by
  have hturn : GoesOn s (separatedTurn item separator done) s := by
    apply GoesOn.ite
    · intro hkind
      refine .skip hstop (hkind ▸ hseparator) (.refl s) fun hstop hpasses => ?_
      exact .bind hitem hstop hpasses.toReaches fun _ _ _ hpasses => .inl hpasses
    · intro _
      exact .inr
  exact hturn _ _ h

theorem separatedRest_unroll (done : List α) (s : Cursor) :
    separatedRest item separator done (b + 1) s =
      (separatedTurn item separator done >>=
        Sum.elim (separatedRest item separator · b) Pure.pure) s := by
  by_cases hkind : s.current.kind = separator
  · cases hresult : item s.advance with
    | error e s' =>
      simp [separatedRest, separatedTurn, separated, Bind.bind, EStateM.bind, kind, hkind, skip,
        hresult]
    | ok a s₁ =>
      by_cases hnext : s₁.current.kind = separator
      · cases hrest : separated item separator b s₁.advance <;>
          simp [separatedRest, separatedTurn, separated, Bind.bind, EStateM.bind, kind, hkind, skip,
            hresult, hnext, hrest, Pure.pure, EStateM.pure]
      · simp [separatedRest, separatedTurn, separated, Bind.bind, EStateM.bind, kind, hkind, skip,
          hresult, hnext, Pure.pure, EStateM.pure]
  · simp [separatedRest, separatedTurn, Bind.bind, EStateM.bind, kind, hkind, Pure.pure,
      EStateM.pure]

/-- Behind the first of some items, the loop over the others. -/
structure SeparatedAdvances (item : Parser α) (separator : TokenKind) : Prop
    extends Advances (separatedTurn item separator) (separatedRest item separator) where
  first (b : Nat) : separated item separator (b + 1) =
    item >>= fun a => separatedRest item separator [a] b

/-- Imported names and the parts of a module's path. -/
theorem separated_advances (hitem : Takes item) (hseparator : separator ≠ .endOfFile) :
    SeparatedAdvances item separator := by
  refine ⟨.of_unroll (separatedTurn_passes hitem hseparator) (fun {done s} hend => ?_)
    fun _ _ => separatedRest_unroll _ _, fun _ => rfl⟩
  have hlast : s.current.kind ≠ separator := hend ▸ hseparator.symm
  have hrest : separatedRest item separator done 0 s = .ok done s := by
    simp only [separatedRest, Bind.bind, EStateM.bind, kind, if_neg hlast]
    rfl
  rw [hrest]
  apply Loop.leaves
  simp only [separatedTurn, Bind.bind, EStateM.bind, kind, if_neg hlast]
  rfl

end

/-! ### Operators and postfix forms -/

def extendTurn (inner : ExprReader) (power : Power) (left : Expr) : Parser (Expr ⊕ Expr) := do
  let token ← current
  if Power.ofKind token.kind ≤ power then return .inr left
  match Continuation.ofKind? token.kind with
  | none => unexpected
  | some (.binary op) =>
    skip
    let right ← inner (.ofKind token.kind)
    return .inl
      (.binary left ⟨op, token.text, token.span⟩ right ⟨left.span.start, right.span.stop⟩)
  | some .call =>
    skip
    let (arguments, closing) ← bounded (expressions inner .closeParen)
    return .inl (.call left arguments ⟨left.span.start, closing.span.stop⟩)
  | some .index =>
    skip
    let index ← inner .lowest
    let closing ← expect .closeBracket
    return .inl (.index left index ⟨left.span.start, closing.span.stop⟩)

section

variable {inner : ExprReader} {power : Power} {left : Expr}

theorem kind_of_operator {token : Token} (h : ¬Power.ofKind token.kind ≤ power) :
    token.kind ≠ .endOfFile := by
  intro hkind
  rw [hkind] at h
  exact h (Nat.zero_le _)

theorem takes_expressions (bound : Nat) {close : TokenKind} (hclose : close ≠ .endOfFile) :
    Takes (bounded (expressions (exprWithin bound) close)) := by
  refine .of_agrees fun hend tokens => .bounded fun _ _ hbounds => ?_
  exact agrees_items hend hclose (by decide) (fun _ _ => agrees_exprWithin hend _ (.inl rfl))
    (.exprWithin _ _) (.exprWithin _ _) (Nat.le_refl _) hbounds

theorem extendTurn_passes (bound : Nat) {left' : Expr} (hstop : s.stop.kind = .endOfFile)
    (h : extendTurn (exprWithin bound) power left s = .ok (.inl left') s') : s.Passes s' := by
  have hturn : GoesOn s (extendTurn (exprWithin bound) power left) s := by
    refine GoesOn.ite (fun _ => .inr) fun hgt => ?_
    have hkind := kind_of_operator hgt
    split
    · exact .failWith
    · refine .skip hstop hkind (.refl s) fun hstop hpasses => ?_
      exact .bind (takes_exprWithin _ _) hstop hpasses.toReaches fun _ _ _ hpasses => .inl hpasses
    · refine .skip hstop hkind (.refl s) fun hstop hpasses => ?_
      exact .bind (takes_expressions _ (by decide)) hstop hpasses.toReaches
        fun _ _ _ hpasses => .inl hpasses
    · refine .skip hstop hkind (.refl s) fun hstop hpasses => ?_
      refine .bind (takes_exprWithin _ _) hstop hpasses.toReaches fun _ _ hstop hpasses => ?_
      exact .bind (takes_expect (by decide)) hstop hpasses.toReaches
        fun _ _ _ hpasses => .inl hpasses
  exact hturn _ _ h

theorem extend_unroll (bound : Nat) (hstop : s.stop.kind = .endOfFile)
    (hbound : s.rest.length ≤ b + 1) :
    extend (exprWithin bound) power (b + 1) left s =
      (extendTurn (exprWithin bound) power left >>=
        Sum.elim (fun left => extend (exprWithin bound) power b left) Pure.pure) s := by
  by_cases hpower : Power.ofKind s.current.kind ≤ power
  · simp [extend, extendTurn, Bind.bind, EStateM.bind, current, hpower, Pure.pure, EStateM.pure]
  · have hpasses := passes_advance hstop (kind_of_operator hpower)
    have harguments : expressions (exprWithin bound) .closeParen b s.advance =
        expressions (exprWithin bound) .closeParen s.advance.rest.length s.advance := by
      have hlt := hpasses.length_lt
      exact items_bound (takes_exprWithin _ _) (.exprWithin _ _) (by decide) (hpasses.stop ▸ hstop)
        (by omega) (Nat.le_refl _)
    simp only [extend, extendTurn, Bind.bind, EStateM.bind, current, if_neg hpower]
    cases Continuation.ofKind? s.current.kind with
    | none => rfl
    | some continuation =>
      cases continuation with
      | binary op =>
        simp only [skip, EStateM.bind]
        cases exprWithin bound (.ofKind s.current.kind) s.advance <;> rfl
      | call =>
        simp only [skip, EStateM.bind, harguments, bounded]
        cases expressions (exprWithin bound) .closeParen s.advance.rest.length s.advance <;> rfl
      | index =>
        simp only [skip, EStateM.bind]
        cases exprWithin bound .lowest s.advance with
        | error => rfl
        | ok index s₁ =>
          simp only
          cases expect .closeBracket s₁ <;> rfl

/-- The operators behind an operand. -/
theorem extend_advances (bound : Nat) (power : Power) :
    Advances (extendTurn (exprWithin bound) power)
      fun left b => extend (exprWithin bound) power b left := by
  refine .of_unroll (extendTurn_passes bound) (fun {left s} hend => ?_) (extend_unroll bound)
  have hle : Power.ofKind s.current.kind ≤ power := by
    rw [hend]
    exact Nat.zero_le _
  rw [extend_at_end _ _ _ _ s hend]
  apply Loop.leaves
  simp only [extendTurn, Bind.bind, EStateM.bind, current, if_pos hle]
  rfl

end

/-! ### Brackets behind a type -/

def suffixTurn (element : TypeExpr) : Parser (TypeExpr ⊕ TypeExpr) := do
  match ← kind with
  | .openBracket =>
    skip
    let _ ← expect .closeBracket
    return .inl (.listOf element)
  | .identifier => unexpected
  | _ => return .inr element

theorem suffixTurn_passes {element element' : TypeExpr} (hstop : s.stop.kind = .endOfFile)
    (h : suffixTurn element s = .ok (.inl element') s') : s.Passes s' := by
  have hturn : GoesOn s (suffixTurn element) s := by
    unfold suffixTurn
    refine GoesOn.kind ?_
    split
    · next hkind =>
      refine .skip hstop (by rw [hkind]; decide) (.refl s) fun hstop hpasses => ?_
      exact .bind (takes_expect (by decide)) hstop hpasses.toReaches
        fun _ _ _ hpasses => .inl hpasses
    · exact .failWith
    · exact .inr
  exact hturn _ _ h

theorem typeSuffixes_unroll (element : TypeExpr) (s : Cursor) :
    typeSuffixes (b + 1) element s =
      (suffixTurn element >>= Sum.elim (typeSuffixes b) Pure.pure) s := by
  simp only [typeSuffixes, suffixTurn, Bind.bind, EStateM.bind, kind]
  cases s.current.kind <;> try rfl
  simp only [skip, EStateM.bind]
  cases expect .closeBracket s.advance <;> rfl

theorem typeSuffixes_advances : Advances suffixTurn fun element b => typeSuffixes b element := by
  refine .of_unroll suffixTurn_passes (fun {element s} hend => .leaves ?_)
    fun _ _ => typeSuffixes_unroll _ _
  simp only [suffixTurn, Bind.bind, EStateM.bind, kind, hend]
  rfl

/-! ### Statements of a block -/

def blockTurn (stmt : Parser Stmt) (done : List Stmt) :
    Parser (List Stmt ⊕ (List Stmt × Token)) := do
  let next ← current
  match next.kind with
  | .closeCurly =>
    skip
    return .inr (done, next)
  | .endOfFile => unexpectedBecause "unterminated block"
  | _ =>
    let first ← stmt
    return .inl (done ++ [first])

section

variable {stmt : Parser Stmt}

theorem blockTurn_passes (hstmt : Takes stmt) {done done' : List Stmt}
    (hstop : s.stop.kind = .endOfFile)
    (h : blockTurn stmt done s = .ok (.inl done') s') : s.Passes s' := by
  have hturn : GoesOn s (blockTurn stmt done) s := by
    unfold blockTurn
    refine GoesOn.current ?_
    split
    · intro _ _ h
      cases h
    · exact .failWith
    · exact .bind hstmt hstop (.refl s) fun _ _ _ hpasses => .inl hpasses
  exact hturn _ _ h

theorem blockStatements_unroll (done : List Stmt) (s : Cursor) :
    behind done (blockStatements stmt (b + 1)) s =
      (blockTurn stmt done >>= Sum.elim (behind · (blockStatements stmt b)) Pure.pure) s := by
  simp only [behind, blockStatements, blockTurn, Bind.bind, EStateM.bind, current]
  cases s.current.kind with
  | closeCurly => simp [skip, EStateM.bind, Pure.pure, EStateM.pure]
  | endOfFile => rfl
  | _ =>
    simp only [EStateM.bind]
    cases stmt s with
    | error => rfl
    | ok first s₁ =>
      simp only
      cases hrest : blockStatements stmt b s₁ <;> simp [hrest, EStateM.bind, Pure.pure, EStateM.pure]

theorem blockStatements_advances (hstmt : Takes stmt) :
    Advances (blockTurn stmt) fun done b => behind done (blockStatements stmt b) := by
  refine .of_unroll (blockTurn_passes hstmt) (fun {done s} hend => .fails ?_)
    fun _ _ => blockStatements_unroll _ _
  simp only [blockTurn, Bind.bind, EStateM.bind, current, hend]
  rfl

end

end Parser

end Script

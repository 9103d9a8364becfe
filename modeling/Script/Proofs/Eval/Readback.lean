import Script.Proofs.Eval.Lockstep
import Script.Proofs.Parse.Language
import Script.Proofs.Token.Printed
import Script.Proofs.Value.Equality

/-!
# Printed lists read back

The text of a list is an expression of the language: its words are a bracket, those of each item
with commas between them, and a bracket again. An item is an integer, maybe behind a sign, a truth
value, a string literal or a list. What that expression evaluates to does not depend on the state,
and equals the list. So a list can be told from its text.
-/

namespace Script

open Grammar

/-- A value that the language can write down: an integer that has a numeral, a truth value, a string
of characters that a literal can show, a list of such values, or a literal for one of them. -/
inductive Value.Readable : Value → Prop
  | integer {n : Integer} : n.val ≠ minInteger → Readable (.integer n)
  | boolean {b : Bool} : Readable (.boolean b)
  | string {s : String} : (∀ c ∈ s.toList, ShownPlainly c) → Readable (.string s)
  | list {items : List Value} : (∀ item ∈ items, Readable item) → Readable (.list items)
  | thin {literal : ThinLiteral} : Readable literal.value → Readable (.thin literal)

/-- In front of what can follow a value the text is read as the words, and these are the words of an
expression that has the value in every state. -/
structure Expresses (text : List Char) (words : List Word) (value : Value) : Prop where
  reads : ∀ {rest : List Char} {more : List Word}, Closes rest → Reads rest more →
    Reads (text ++ rest) (words ++ more)
  derives : ∀ {tokens : List Token}, tokens.map Token.word = words →
    ∃ e, Derives .logical tokens e ∧ ∀ call m, evaluate call e m = .ok value m

/-- The same of texts with commas between them, up to the bracket that closes them. -/
structure ExpressesAll (texts : List (List Char)) (words : List Word) (values : List Value) :
    Prop where
  reads : ∀ {rest : List Char} {more : List Word}, Reads (']' :: rest) more →
    Reads ([',', ' '].intercalate texts ++ ']' :: rest) (words ++ more)
  derives : ∀ {tokens : List Token}, tokens.map Token.word = words →
    ∃ items : List (List Token × Expr), (∀ item ∈ items, Derives .logical item.1 item.2) ∧
      Commas (items.map Prod.fst) tokens ∧
      ∀ call m, evaluateAll call (items.map Prod.snd) m = .ok values m

/-! ### Expressions -/

theorem derives_repr {n : Nat} {value : Integer} (h : value.val = n) {token : Token}
    (hkind : token.kind = .number) (htext : token.text = n.repr) :
    Derives .primary [token] (.number value token.span) := by
  refine .number hkind ?_
  rw [htext, Nat.toList_repr, h]
  exact congrArg Nat.cast (Nat.ofDigitChars_toDigits (by decide) (by decide)).symm

namespace Expresses

/-- A value that one token stands for. -/
theorem one {kind : TokenKind} {text : String} {piece : List Char} {value : Value}
    (hwritten : (Lexeme.token kind text).Written piece)
    (h : ∀ token : Token, token.kind = kind → token.text = text →
      ∃ e, Derives .primary [token] e ∧ ∀ call m, evaluate call e m = .ok value m) :
    Expresses piece [(kind, text)] value := by
  constructor
  · intro rest more hrest hreads
    exact .token hwritten (hwritten.endsBefore_of_closes hrest) hreads
  · intro tokens hwords
    obtain ⟨token, rfl, hword⟩ := List.map_eq_singleton_iff.1 hwords
    obtain ⟨e, he, hvalue⟩ := h token (congrArg Prod.fst hword) (congrArg Prod.snd hword)
    exact ⟨e, he.loosen (by decide), hvalue⟩

theorem boolean (b : Bool) : ∃ words, Expresses (toString b).toList words (.boolean b) := by
  cases b with
  | true =>
    have hwritten : (Lexeme.token .wordTrue "true").Written ['t', 'r', 'u', 'e'] :=
      @Lexeme.Written.word 't' ['r', 'u', 'e'] (by decide) (by decide)
    exact ⟨_, one hwritten fun token hkind _ => ⟨_, .true hkind, fun _ _ => rfl⟩⟩
  | false =>
    have hwritten : (Lexeme.token .wordFalse "false").Written ['f', 'a', 'l', 's', 'e'] :=
      @Lexeme.Written.word 'f' ['a', 'l', 's', 'e'] (by decide) (by decide)
    exact ⟨_, one hwritten fun token hkind _ => ⟨_, .false hkind, fun _ _ => rfl⟩⟩

theorem string {s : String} (h : ∀ c ∈ s.toList, ShownPlainly c) :
    Expresses (quote s).toList [(.string, s)] (.string s) := by
  refine one (written_quote h) fun token hkind htext => ⟨_, .string hkind, fun _ _ => ?_⟩
  rw [← htext]
  rfl

theorem natural {n : Nat} {value : Integer} (h : value.val = n) :
    Expresses n.repr.toList [(.number, n.repr)] (.integer value) :=
  one (written_repr n) fun _ hkind htext => ⟨_, derives_repr h hkind htext, fun _ _ => rfl⟩

/-- A negative number is read as a sign and the number without it, which is one of the language
unless the number is the least. -/
theorem negative {n : Nat} {value : Integer} (h : value.val = -n) (hmin : value.val ≠ minInteger) :
    Expresses ('-' :: n.repr.toList) [(.dash, "-"), (.number, n.repr)] (.integer value) := by
  have hbounds : minInteger ≤ (n : Int) ∧ (n : Int) ≤ maxInteger := by
    have hle := value.min_le
    unfold minInteger maxInteger at *
    omega
  let operand : Integer := ⟨n, hbounds.1, hbounds.2⟩
  have hnegated : operand.neg? = some value := by
    have hin : minInteger ≤ -(n : Int) ∧ -(n : Int) ≤ maxInteger := h ▸ ⟨value.min_le, value.le_max⟩
    rw [Integer.neg?, Integer.ofInt?, dif_pos hin, Option.some.injEq, Integer.ext_iff, h]
  constructor
  · intro rest more hrest hmore
    obtain ⟨hne, hdigits⟩ := (written_repr n).digits rfl
    obtain ⟨c, cs, hcs⟩ := List.exists_cons_of_ne_nil hne
    have hnatural : Expresses n.repr.toList [(.number, n.repr)] (.integer operand) := natural rfl
    refine (hnatural.reads hrest hmore).sign ⟨c, by rw [hcs]; rfl, ?_⟩
    exact List.all_eq_true.1 hdigits c (by rw [hcs]; exact List.mem_cons_self)
  · intro tokens hwords
    obtain ⟨sign, tokens, rfl, hsign, hwords⟩ := List.map_eq_cons_iff.1 hwords
    obtain ⟨numeral, rfl, hnumeral⟩ := List.map_eq_singleton_iff.1 hwords
    obtain ⟨hkind, htext⟩ := Prod.mk.inj hnumeral
    have hop : UnaryOp.ofKind? sign.kind = some .negate := by
      rw [show sign.kind = .dash from congrArg Prod.fst hsign]
      rfl
    have hoperand : Derives .primary [numeral] (.number operand numeral.span) :=
      derives_repr rfl hkind htext
    refine ⟨_, (Derives.unary hop (hoperand.loosen (by decide))).loosen (by decide), fun _ m => ?_⟩
    have hresult : UnaryOp.negate.apply sign.text (.integer operand) = .ok (.integer value) := by
      rw [UnaryOp.apply, hnegated, exactResult]
    exact congrArg (Run.ofExcept · m) hresult

theorem integer {n : Integer} (h : n.val ≠ minInteger) :
    ∃ words, Expresses (toString n).toList words (.integer n) := by
  have htext : toString n = if 0 ≤ n.val then n.val.toNat.repr else "-" ++ (-n.val).toNat.repr :=
    Int.repr_eq_if
  rw [htext]
  split
  · exact ⟨_, natural (by omega)⟩
  · rw [String.toList_append]
    exact ⟨_, negative (by omega) h⟩

end Expresses

/-! ### Lists -/

namespace ExpressesAll

theorem nil : ExpressesAll [] [] [] := by
  constructor
  · intro rest more hmore
    exact hmore
  · intro tokens hwords
    rw [List.map_eq_nil_iff.1 hwords]
    exact ⟨[], nofun, .nil, fun _ _ => rfl⟩

variable {text : List Char} {words : List Word} {value : Value}

theorem one (h : Expresses text words value) (hvalue : value.promote = value) :
    ExpressesAll [text] words [value] := by
  constructor
  · intro rest more hmore
    rw [List.intercalate_singleton]
    exact h.reads (by simp [Closes]) hmore
  · intro tokens hwords
    obtain ⟨e, he, heval⟩ := h.derives hwords
    have hall : ∀ item ∈ [(tokens, e)], Derives .logical item.1 item.2 := by simpa using he
    refine ⟨_, hall, .last, fun call m => ?_⟩
    have hvalues : evaluateAll call [e] m = .ok [value.promote] m :=
      evaluateAll_cons (heval call m) rfl
    rwa [hvalue] at hvalues

/-- A comma ends the first item, and the space behind it is skipped. -/
theorem cons {next : List Char} {texts : List (List Char)} {words' : List Word}
    {values : List Value} (h : Expresses text words value) (hvalue : value.promote = value)
    (hs : ExpressesAll (next :: texts) words' values) :
    ExpressesAll (text :: next :: texts) (words ++ (.comma, ",") :: words') (value :: values) := by
  constructor
  · intro rest more hmore
    have hcomma : ([','], TokenKind.comma) ∈ TokenKind.marks := by decide
    have hblank : isBlank ' ' := by decide
    have hbehind := ((hs.reads hmore).blank_cons hblank).mark hcomma (by decide)
    have hwhole := h.reads (by simp [Closes]) hbehind
    simpa [List.intercalate_cons_cons] using hwhole
  · intro tokens hwords
    obtain ⟨first, others, rfl, hfirst, hothers⟩ := List.map_eq_append_iff.1 hwords
    obtain ⟨comma, others, rfl, hcomma, hothers⟩ := List.map_eq_cons_iff.1 hothers
    obtain ⟨e, he, heval⟩ := h.derives hfirst
    obtain ⟨items, hall, hcommas, hevals⟩ := hs.derives hothers
    have hall' : ∀ item ∈ (first, e) :: items, Derives .logical item.1 item.2 :=
      List.forall_mem_cons.2 ⟨he, hall⟩
    refine ⟨_, hall', .cons (congrArg Prod.fst hcomma) hcommas, fun call m => ?_⟩
    have hvalues := evaluateAll_cons (heval call m) (hevals call m)
    rwa [hvalue] at hvalues

end ExpressesAll

theorem Expresses.list {texts : List (List Char)} {words : List Word} {values : List Value}
    (h : ExpressesAll texts words values) :
    Expresses ('[' :: ([',', ' '].intercalate texts ++ [']']))
      ((.openBracket, "[") :: (words ++ [(.closeBracket, "]")])) (.list values) := by
  constructor
  · intro rest more _ hmore
    have hopen : (['['], TokenKind.openBracket) ∈ TokenKind.marks := by decide
    have hclose : ([']'], TokenKind.closeBracket) ∈ TokenKind.marks := by decide
    have hwhole := (h.reads (hmore.mark hclose (by decide))).mark hopen (by decide)
    simpa using hwhole
  · intro tokens hwords
    obtain ⟨opening, tokens, rfl, hopening, hwords⟩ := List.map_eq_cons_iff.1 hwords
    obtain ⟨tokens, ends, rfl, htokens, hends⟩ := List.map_eq_append_iff.1 hwords
    obtain ⟨closing, rfl, hclosing⟩ := List.map_eq_singleton_iff.1 hends
    obtain ⟨items, hall, hcommas, hevals⟩ := h.derives htokens
    have hlist :=
      Derives.list (congrArg Prod.fst hopening) hall hcommas (congrArg Prod.fst hclosing)
    refine ⟨_, hlist.loosen (by decide), fun call m => ?_⟩
    rw [evaluate, Run.bind_of_ok (hevals call m)]
    rfl

namespace Value

/-- The items of a list in a row. -/
theorem expressesAll_items {items : List Value}
    (h : ∀ item ∈ items, ∃ words, Expresses item.displayItem.toList words item.promoteAll) :
    ∃ words, ExpressesAll ((items.map displayItem).map String.toList) words
      (items.map promoteAll) := by
  induction items with
  | nil => exact ⟨[], .nil⟩
  | cons item items ih =>
    obtain ⟨⟨words, hitem⟩, hitems⟩ := List.forall_mem_cons.1 h
    obtain ⟨words', hitems'⟩ := ih hitems
    cases items with
    | nil => exact ⟨words, .one hitem (promote_promoteAll item)⟩
    | cons next items => exact ⟨_, .cons hitem (promote_promoteAll item) hitems'⟩

/-- What a readable value shows as an item of a list expresses it. -/
theorem Readable.expresses {value : Value} (h : value.Readable) :
    ∃ words, Expresses value.displayItem.toList words value.promoteAll := by
  induction h with
  | integer hmin => exact Expresses.integer hmin
  | boolean => exact Expresses.boolean _
  | string hshown => exact ⟨_, .string hshown⟩
  | @list items _ ih =>
    obtain ⟨words, hitems⟩ := expressesAll_items ih
    have htext : (Value.list items).displayItem.toList =
        '[' :: ([',', ' '].intercalate ((items.map displayItem).map String.toList) ++ [']']) := by
      change (Value.list items).display.toList = _
      rw [display_list, String.toList_append, String.toList_append,
        String.toList_intercalate]
      rfl
    rw [htext, transparent_promoteAll.list]
    exact ⟨_, .list hitems⟩
  | @thin literal _ ih =>
    rw [← displayItem_promote]
    have hvalue : (Value.thin literal).promoteAll = literal.value.promoteAll := by
      cases literal <;> simp [promoteAll, ThinLiteral.value]
    rw [hvalue]
    exact ih

end Value

/-! ### Statements -/

/-- A text that expresses a value is, with a semicolon behind it, a statement. -/
theorem Expresses.statement {text : List Char} {words : List Word} {value : Value}
    (h : Expresses text words value) {source : String} (hsource : source.toList = text ++ [';'])
    (file : String) :
    ∃ tokens e span, tokenize source file = .ok tokens ∧
      parse tokens file = .ok (.mk [.expression e e.span] span) ∧
      ∀ call m, evaluate call e m = .ok value m := by
  have hreads : Reads source.toList (words ++ [(.semicolon, ";")]) := by
    rw [hsource]
    exact h.reads (by simp [Closes]) (Reads.nil.mark (by decide) (by decide))
  obtain ⟨tokens, htokens, hwords⟩ := tokenize_of_reads hreads file
  obtain ⟨body, ends, rfl, hbody, hends⟩ := List.map_eq_append_iff.1 hwords
  obtain ⟨last, rfl, hlast⟩ := List.map_eq_singleton_iff.1 hends
  have hwritten {token : Token} (hmem : token ∈ body) :
      ∃ piece, (Lexeme.token token.kind token.text).Written piece :=
    hreads.written (hbody ▸ List.mem_map_of_mem hmem)
  obtain ⟨taken, others, rfl, htaken, hothers⟩ := List.map_eq_append_iff.1 hbody
  obtain ⟨semicolon, rfl, hsemicolon⟩ := List.map_eq_singleton_iff.1 hothers
  obtain ⟨e, he, hvalue⟩ := h.derives htaken
  have hprogram := DerivesProgram.nil.cons (.expression he (congrArg Prod.fst hsemicolon))
  rw [List.append_nil] at hprogram
  obtain ⟨span, hparse⟩ := parse_of_derives hprogram
    (fun token hmem => (hwritten hmem).elim fun _ hpiece => hpiece.kind_ne_endOfFile)
    (fun token hmem hkind => (hwritten hmem).elim fun _ hpiece => hpiece.digits hkind)
    (congrArg Prod.fst hlast) file
  exact ⟨_, e, span, htokens, hparse, hvalue⟩

namespace Value

theorem list_statement {items : List Value} (h : (list items).Readable) (file : String) :
    ∃ tokens e span, tokenize ((list items).display ++ ";") file = .ok tokens ∧
      parse tokens file = .ok (.mk [.expression e e.span] span) ∧
      ∀ call m, evaluate call e m = .ok (list items).promoteAll m := by
  obtain ⟨words, hwords⟩ := h.expresses
  exact hwords.statement String.toList_append file

/-- The text of a list with a semicolon behind it is read as one expression, which evaluates to an
equal list in every state and leaves the state as it is. So lists with the same text are equal. -/
theorem list_read_back {items : List Value} (h : (list items).Readable) :
    (∀ file, ∃ tokens e span value, tokenize ((list items).display ++ ";") file = .ok tokens ∧
      parse tokens file = .ok (.mk [.expression e e.span] span) ∧
      (∀ call m, evaluate call e m = .ok value m) ∧ (list items).equals value) ∧
    ∀ items', (list items').Readable → (list items').display = (list items).display →
      (list items).equals (list items') := by
  constructor
  · intro file
    obtain ⟨tokens, e, span, htokens, hparse, hvalue⟩ := list_statement h file
    exact ⟨tokens, e, span, _, htokens, hparse, hvalue, equals_promoteAll _⟩
  · intro items' h' hdisplay
    obtain ⟨tokens, e, span, htokens, hparse, hvalue⟩ := list_statement h ""
    obtain ⟨tokens', e', span', htokens', hparse', hvalue'⟩ := list_statement h' ""
    obtain rfl := Except.ok.inj ((hdisplay ▸ htokens').symm.trans htokens)
    obtain ⟨hstatements, -⟩ := Block.mk.inj (Except.ok.inj (hparse'.symm.trans hparse))
    obtain ⟨rfl, -⟩ := Stmt.expression.inj (List.singleton_inj.1 hstatements)
    have hpromoted : (list items).promoteAll = (list items').promoteAll :=
      (EStateM.Result.ok.inj ((hvalue default default).symm.trans (hvalue' default default))).1
    have hequals := (equals_iff _ _).1 (equals_promoteAll (list items))
    have hequals' := (equals_iff _ _).1 (equals_promoteAll (list items'))
    exact (equals_iff _ _).2 (by rw [hequals, hpromoted, hequals'])

/-- In `[-12, ["a\"\\\07", true], []]` a number has a sign, a list stands in a list, and in the
string are a quote, a backslash and a null character in front of a digit. -/
theorem list_read_back_of_nested :
    let number : Integer := ⟨-12, by decide, by decide⟩
    let items : List Value :=
      [.integer number, .list [.string "a\"\\\x007", .boolean true], .list []]
    (list items).Readable ∧ (list items).display = "[-12, [\"a\\\"\\\\\\07\", true], []]" ∧
      (∀ file, ∃ tokens e span value, tokenize ((list items).display ++ ";") file = .ok tokens ∧
        parse tokens file = .ok (.mk [.expression e e.span] span) ∧
        (∀ call m, evaluate call e m = .ok value m) ∧ (list items).equals value) ∧
      ∀ items', (list items').Readable → (list items').display = (list items).display →
        (list items).equals (list items') := by
  intro number items
  have hnumber : (Value.integer number).Readable := .integer (by decide)
  have hstring : (Value.string "a\"\\\x007").Readable := .string (by decide +kernel)
  have hinner : (Value.list [.string "a\"\\\x007", .boolean true]).Readable :=
    .list (by simpa using ⟨hstring, .boolean⟩)
  have hempty : (Value.list []).Readable := .list (List.forall_mem_nil _)
  have hitems : (list items).Readable := .list (by simpa [items] using ⟨hnumber, hinner, hempty⟩)
  exact ⟨hitems, by decide +kernel, list_read_back hitems⟩

end Value

end Script

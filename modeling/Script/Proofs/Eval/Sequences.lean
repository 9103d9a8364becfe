import Script.Proofs.Eval.Arithmetic

/-!
# Lists and strings as sequences

What indexing, concatenation and the natives of the library say of lists and strings, for
expressions that have a value in a state and leave that state as it is. A list is the sequence of its
items, a string that of its characters, each one a string. A length counts these, and an index is
good exactly below the length. A range that no list can hold has no value.
-/

namespace Script

namespace State

variable (σ : State) (call : Caller)

/-- The expression has a value, which is looked at promoted, and evaluating it does not change the
state. -/
def Gives (e : Expr) (value : Value) : Prop :=
  ∀ m : Machine, m.toState = σ →
    ∃ raw m', evaluate call e m = .ok raw m' ∧ m'.toState = σ ∧ raw.promote = value

/-- The expression fails, and evaluating it does not change the state. -/
def Refuses (e : Expr) (cause : Cause) : Prop :=
  ∀ m : Machine, m.toState = σ →
    ∃ m', evaluate call e m = .error (.failed (.ofCause cause)) m' ∧ m'.toState = σ

/-- There is no answer to the expression. -/
def Exhausts (e : Expr) : Prop :=
  ∀ m : Machine, m.toState = σ → ∃ m', evaluate call e m = .error .outOfFuel m'

end State

/-- What a value is a sequence of, and the native that counts it. -/
inductive IsSequence : Value → Native → List Value → Prop
  | list (items : List Value) : IsSequence (.list items) .listLen items
  | string (s : String) :
    IsSequence (.string s) .stringLen (s.toList.map fun c => .string (String.singleton c))

/-- In the state the expression is a sequence of the items. -/
def State.Sequence (σ : State) (call : Caller) (e : Expr) (counter : Native) (items : List Value) :
    Prop :=
  ∃ value, IsSequence value counter items ∧ σ.Gives call e value

namespace Expr

/-- An expression of the form `a + b`. -/
def IsSum (e a b : Expr) : Prop :=
  ∃ text place span, e = .binary a ⟨.operation .add, text, place⟩ b span

/-- An expression of the form `a[i]`. -/
def IsItem (e a i : Expr) : Prop :=
  ∃ span, e = .index a i span

/-- An expression of the form `f(...)`. -/
def IsCall (e f : Expr) (arguments : List Expr) : Prop :=
  ∃ span, e = .call f arguments span

/-- An expression of the form `[...]`. -/
def IsList (e : Expr) (elements : List Expr) : Prop :=
  ∃ span, e = .list elements span

end Expr

/-- The laws of sequences in a state, for all expressions that have a value there: `a` and `b` have
sequences, `i`, `j` and `n` integers, and `f` a native of the library. -/
structure SequenceLaws (σ : State) (call : Caller) : Prop where
  /-- A length counts the items, as long as it is an integer of the language. -/
  len {a f lenA : Expr} {counter : Native} {items : List Value} {length : Integer} :
    σ.Sequence call a counter items → σ.Gives call f (.native counter) → lenA.IsCall f [a] →
    length.val = items.length → σ.Gives call lenA (.integer length)
  /-- An index is good if and only if it is not negative and below the length. -/
  index {a i item : Expr} {counter : Native} {items : List Value} {index : Integer} :
    σ.Sequence call a counter items → σ.Gives call i (.integer index) → item.IsItem a i →
    ((∃ value, σ.Gives call item value) ↔ 0 ≤ index.val ∧ index.val < items.length) ∧
    (∀ (k : Nat) (hk : k < items.length), index.val = k → σ.Gives call item items[k].promote) ∧
    (¬(0 ≤ index.val ∧ index.val < items.length) →
      σ.Refuses call item (.indexOutOfRange index.val items.length))
  /-- A sum has the items of `b` behind those of `a`. -/
  sum {a b ab : Expr} {counter : Native} {items items' : List Value} :
    σ.Sequence call a counter items → σ.Sequence call b counter items' → ab.IsSum a b →
    σ.Sequence call ab counter (items ++ items')
  /-- The length of a sum is the sum of the lengths. -/
  len_sum {a b ab f lenA lenB lenAB total : Expr} {counter : Native} {items items' : List Value}
    {value : Value} :
    σ.Sequence call a counter items → σ.Sequence call b counter items' → ab.IsSum a b →
    σ.Gives call f (.native counter) → lenA.IsCall f [a] → lenB.IsCall f [b] →
    lenAB.IsCall f [ab] → total.IsSum lenA lenB → σ.Gives call total value →
    σ.Gives call lenAB value
  /-- Below the length of `a`, a sum has what `a` has at the same index. -/
  index_sum_left {a b ab i itemA item : Expr} {counter : Native} {items items' : List Value}
    {index : Integer} :
    σ.Sequence call a counter items → σ.Sequence call b counter items' → ab.IsSum a b →
    σ.Gives call i (.integer index) → itemA.IsItem a i → item.IsItem ab i →
    index.val < items.length → ∀ value, σ.Gives call item value ↔ σ.Gives call itemA value
  /-- From the length of `a` on, a sum has what `b` has at an index that is less by this length. -/
  index_sum_right {a b ab i j itemB item : Expr} {counter : Native} {items items' : List Value}
    {index rest : Integer} :
    σ.Sequence call a counter items → σ.Sequence call b counter items' → ab.IsSum a b →
    σ.Gives call i (.integer index) → σ.Gives call j (.integer rest) → itemB.IsItem b j →
    item.IsItem ab i → items.length ≤ index.val → rest.val = index.val - items.length →
    ∀ value, σ.Gives call item value ↔ σ.Gives call itemB value
  /-- A string is made of the strings at its indices. -/
  characters {a : Expr} {s : String} :
    σ.Gives call a (.string s) → ∃ parts : List String, String.join parts = s ∧
      parts.length = s.length ∧ ∀ {i item : Expr} {index : Integer} (k : Nat)
        (hk : k < parts.length), σ.Gives call i (.integer index) → item.IsItem a i →
        index.val = k → σ.Gives call item (.string parts[k])
  /-- `push(a, x)` is `a + [x]`, and `a` is afterwards what it was before. -/
  push {a x f pushed one ax : Expr} {items : List Value} {value : Value} :
    σ.Gives call a (.list items) → σ.Gives call x value → σ.Gives call f (.native .listPush) →
    pushed.IsCall f [a, x] → one.IsList [x] → ax.IsSum a one →
    σ.Gives call pushed (.list (items ++ [value])) ∧
    σ.Gives call ax (.list (items ++ [value])) ∧
    ∀ m : Machine, m.toState = σ → ∃ raw m', evaluate call pushed m = .ok raw m' ∧
      ∃ raw' m'', evaluate call a m' = .ok raw' m'' ∧ raw'.promote = .list items
  /-- `range(n)` has the integers from zero up to `n`, each at its own index, if a list can hold
  so many. -/
  range {n f upTo : Expr} {bound : Integer} :
    σ.Gives call n (.integer bound) → σ.Gives call f (.native .listRange) → upTo.IsCall f [n] →
    bound.val ≤ Native.listCapacity →
    ∃ items, σ.Gives call upTo (.list items) ∧ (items.length : Int) = max bound.val 0 ∧
      ∀ {i item : Expr} {index : Integer}, σ.Gives call i (.integer index) → item.IsItem upTo i →
        0 ≤ index.val → index.val < bound.val → σ.Gives call item (.integer index)
  /-- Otherwise there is no answer to `range(n)`. -/
  range_exhausts {n f upTo : Expr} {bound : Integer} :
    σ.Gives call n (.integer bound) → σ.Gives call f (.native .listRange) → upTo.IsCall f [n] →
    Native.listCapacity < bound.val → σ.Exhausts call upTo
  /-- A sum is a list of some type if and only if both of its parts are. -/
  sum_accepts {a b ab : Expr} {items items' : List Value} :
    σ.Gives call a (.list items) → σ.Gives call b (.list items') → ab.IsSum a b →
    ∃ both, σ.Gives call ab both ∧ ∀ element : DeclaredType,
      (DeclaredType.listOf element).accepts both ↔
        (DeclaredType.listOf element).accepts (.list items) ∧
        (DeclaredType.listOf element).accepts (.list items')
  push_accepts {a x f pushed : Expr} {items : List Value} {value : Value} :
    σ.Gives call a (.list items) → σ.Gives call x value → σ.Gives call f (.native .listPush) →
    pushed.IsCall f [a, x] → ∃ longer, σ.Gives call pushed longer ∧ ∀ element : DeclaredType,
      (DeclaredType.listOf element).accepts longer ↔
        (DeclaredType.listOf element).accepts (.list items) ∧ element.accepts value
  /-- What is found in a list of some type has the type of its items. -/
  item_accepts {a i item : Expr} {items : List Value} {index : Integer} {value : Value} :
    σ.Gives call a (.list items) → σ.Gives call i (.integer index) → item.IsItem a i →
    σ.Gives call item value → ∀ element : DeclaredType,
      (DeclaredType.listOf element).accepts (.list items) → element.accepts value

/-! ### Evaluation in a state -/

section

variable {σ : State} {call : Caller} {e : Expr}

theorem State.Gives.unique {value value' : Value} (h : σ.Gives call e value)
    (h' : σ.Gives call e value') : value = value' := by
  obtain ⟨raw, m, hraw, -, rfl⟩ := h ⟨σ, default⟩ rfl
  obtain ⟨raw', m', hraw', -, rfl⟩ := h' ⟨σ, default⟩ rfl
  cases hraw.symm.trans hraw'
  rfl

theorem State.Gives.not_refuses {value : Value} {cause : Cause} (h : σ.Gives call e value) :
    ¬σ.Refuses call e cause := by
  intro h'
  obtain ⟨raw, m, hraw, -, -⟩ := h ⟨σ, default⟩ rfl
  obtain ⟨m', hraw', -⟩ := h' ⟨σ, default⟩ rfl
  cases hraw.symm.trans hraw'

theorem State.Gives.not_exhausts {value : Value} (h : σ.Gives call e value) :
    ¬σ.Exhausts call e := by
  intro h'
  obtain ⟨raw, m, hraw, -, -⟩ := h ⟨σ, default⟩ rfl
  obtain ⟨m', hraw'⟩ := h' ⟨σ, default⟩ rfl
  cases hraw.symm.trans hraw'

theorem State.Gives.promoted {value : Value} (h : σ.Gives call e value) :
    value.promote = value := by
  obtain ⟨raw, _, -, -, rfl⟩ := h ⟨σ, default⟩ rfl
  exact Value.promote_promote raw

theorem Value.eq_native_of_promote {value : Value} {f : Native} (h : value.promote = .native f) :
    value = .native f := by
  cases value with
  | thin literal => cases literal <;> cases h
  | _ => exact h

/-- Natives other than `print` do nothing but compute their result. -/
theorem callNative_eq {f : Native} (hf : f ≠ .print) {arguments : List Value}
    (hfits : f.overflows arguments = false) (m : Machine) :
    ∃ m' : Machine, m'.toState = m.toState ∧
      Run.callNative f arguments m = Run.ofExcept (f.result arguments) m' := by
  have hcall : f.call arguments m.world.output = (f.result arguments, m.world.output) := by
    cases f <;> first | rfl | exact absurd rfl hf
  refine ⟨m.step fun s => { s with world.output := m.world.output }, rfl, ?_⟩
  rw [Run.callNative_of_fits hfits, hcall]

namespace State

theorem gives_number (n : Integer) (span : Span) : σ.Gives call (.number n span) (.integer n) :=
  fun m hm => ⟨.integer n, m, by rw [evaluate]; rfl, hm, rfl⟩

theorem gives_symbol {name : String} {value : Value}
    (h : σ.arena.lookup σ.active name = .ok value) (hvalue : value.promote = value) (span : Span) :
    σ.Gives call (.symbol name span) value := by
  rintro m rfl
  refine ⟨value, m, ?_, rfl, hvalue⟩
  rw [evaluate, Run.lookup, Run.get_bind, Machine.lookup, h]
  rfl

/-- An item is taken from the values of a sequence and an index. -/
theorem evaluate_item {i item : Expr} {value : Value} {n : Integer} (hitem : item.IsItem e i)
    (he : σ.Gives call e value) (hi : σ.Gives call i (.integer n)) (m : Machine)
    (hm : m.toState = σ) :
    ∃ m', m'.toState = σ ∧ evaluate call item m = Run.ofExcept (value.get n) m' := by
  obtain ⟨span, rfl⟩ := hitem
  obtain ⟨raw, m', hraw, hm', rfl⟩ := he m hm
  obtain ⟨index, m'', hindex, hm'', hpromote⟩ := hi m' hm'
  have hposition : index.asIndex = .ok n := by rw [Value.asIndex, hpromote]
  refine ⟨m'', hm'', ?_⟩
  rw [evaluate, Run.bind_of_ok hraw, Run.bind_of_ok hindex, hposition]
  rfl

theorem gives_item {i item : Expr} {value result : Value} {n : Integer} (hitem : item.IsItem e i)
    (he : σ.Gives call e value) (hi : σ.Gives call i (.integer n))
    (h : value.get n = .ok result) : σ.Gives call item result.promote := by
  intro m hm
  obtain ⟨m', hm', heval⟩ := evaluate_item hitem he hi m hm
  rw [heval, h]
  exact ⟨result, m', rfl, hm', rfl⟩

theorem refuses_item {i item : Expr} {value : Value} {n : Integer} {cause : Cause}
    (hitem : item.IsItem e i) (he : σ.Gives call e value) (hi : σ.Gives call i (.integer n))
    (h : value.get n = .error cause) : σ.Refuses call item cause := by
  intro m hm
  obtain ⟨m', hm', heval⟩ := evaluate_item hitem he hi m hm
  rw [heval, h]
  exact ⟨m'.raise cause, rfl, hm'⟩

theorem evaluate_sum {e' sum : Expr} {value value' : Value} (hsum : sum.IsSum e e')
    (he : σ.Gives call e value) (he' : σ.Gives call e' value') (m : Machine) (hm : m.toState = σ) :
    ∃ text m', m'.toState = σ ∧
      evaluate call sum m = Run.ofExcept (Operation.add.apply text value value') m' := by
  obtain ⟨text, place, span, rfl⟩ := hsum
  obtain ⟨raw, m', hraw, hm', rfl⟩ := he m hm
  obtain ⟨raw', m'', hraw', hm'', rfl⟩ := he' m' hm'
  refine ⟨text, m'', hm'', ?_⟩
  rw [evaluate_of_operation rfl, Run.bind_of_ok hraw, Run.bind_of_ok hraw']

theorem gives_sum {e' sum : Expr} {value value' result : Value} (hsum : sum.IsSum e e')
    (he : σ.Gives call e value) (he' : σ.Gives call e' value')
    (h : ∀ text, Operation.add.apply text value value' = .ok result)
    (hresult : result.promote = result) : σ.Gives call sum result := by
  intro m hm
  obtain ⟨text, m', hm', heval⟩ := evaluate_sum hsum he he' m hm
  rw [heval, h]
  exact ⟨result, m', rfl, hm', hresult⟩

/-- A sum of integers is the exact one, or there is none. -/
theorem gives_integer_sum {e' sum : Expr} {k l : Integer} {value : Value} (hsum : sum.IsSum e e')
    (he : σ.Gives call e (.integer k)) (he' : σ.Gives call e' (.integer l))
    (h : σ.Gives call sum value) : ∃ n : Integer, n.val = k.val + l.val ∧ value = .integer n := by
  obtain ⟨raw, m, hraw, -, rfl⟩ := h ⟨σ, default⟩ rfl
  obtain ⟨text, m', -, heval⟩ := evaluate_sum hsum he he' ⟨σ, default⟩ rfl
  rw [hraw] at heval
  by_cases hfits : Representable (k.val + l.val)
  · have hadd : k.add? l = some ⟨_, hfits.1, hfits.2⟩ := Integer.ofInt?_of_representable hfits
    rw [Operation.apply, hadd] at heval
    cases heval
    exact ⟨_, rfl, rfl⟩
  · have hadd : k.add? l = none := Integer.ofInt?_of_not_representable hfits
    rw [Operation.apply, hadd] at heval
    cases heval

/-- Several expressions have values, one after the other. -/
def GivesAll (σ : State) (call : Caller) (exprs : List Expr) (values : List Value) : Prop :=
  ∀ m : Machine, m.toState = σ →
    ∃ m', evaluateAll call exprs m = .ok values m' ∧ m'.toState = σ

theorem GivesAll.nil : σ.GivesAll call [] [] :=
  fun m hm => ⟨m, rfl, hm⟩

theorem GivesAll.cons {exprs : List Expr} {value : Value} {values : List Value}
    (h : σ.Gives call e value) (hs : σ.GivesAll call exprs values) :
    σ.GivesAll call (e :: exprs) (value :: values) := by
  intro m hm
  obtain ⟨raw, m', hraw, hm', rfl⟩ := h m hm
  obtain ⟨n, hvalues, hn⟩ := hs m' hm'
  exact ⟨n, evaluateAll_cons hraw hvalues, hn⟩

theorem gives_list {exprs : List Expr} {values : List Value} (he : e.IsList exprs)
    (h : σ.GivesAll call exprs values) : σ.Gives call e (.list values) := by
  obtain ⟨span, rfl⟩ := he
  intro m hm
  obtain ⟨m', hvalues, hm'⟩ := h m hm
  refine ⟨.list values, m', ?_, hm', rfl⟩
  rw [evaluate, Run.bind_of_ok hvalues]
  rfl

theorem evaluate_call {f : Native} {callee : Expr} {arguments : List Expr} {values : List Value}
    (he : e.IsCall callee arguments) (hcallee : σ.Gives call callee (.native f))
    (harguments : σ.GivesAll call arguments values) (m : Machine) (hm : m.toState = σ) :
    ∃ m', m'.toState = σ ∧ evaluate call e m = Run.callNative f values m' := by
  obtain ⟨span, rfl⟩ := he
  obtain ⟨raw, m', hraw, hm', hpromote⟩ := hcallee m hm
  obtain rfl := Value.eq_native_of_promote hpromote
  obtain ⟨n, hvalues, hn⟩ := harguments m' hm'
  refine ⟨n, hn, ?_⟩
  rw [evaluate, Run.bind_of_ok hraw, Run.bind_of_ok hvalues, callValue]

theorem gives_call {f : Native} (hf : f ≠ .print) {callee : Expr} {arguments : List Expr}
    {values : List Value} {result : Value} (he : e.IsCall callee arguments)
    (hcallee : σ.Gives call callee (.native f)) (harguments : σ.GivesAll call arguments values)
    (hfits : f.overflows values = false) (h : f.result values = .ok result)
    (hresult : result.promote = result) : σ.Gives call e result := by
  intro m hm
  obtain ⟨n, hn, heval⟩ := evaluate_call he hcallee harguments m hm
  obtain ⟨n', hn', hcall⟩ := callNative_eq hf hfits n
  refine ⟨result, n', ?_, hn'.trans hn, hresult⟩
  rw [heval, hcall, h]
  rfl

end State

end

/-! ### Values -/

theorem Integer.bmod_val (n : Integer) : Int.bmod n.val 18446744073709551616 = n.val := by
  have hmin := n.min_le
  have hmax := n.le_max
  rw [minInteger] at hmin
  rw [maxInteger] at hmax
  refine Int.bmod_eq_of_le ?_ ?_
  · omega
  · omega

theorem Integer.val_ofLength (k : Nat) : (ofLength k).val = Int.bmod k 18446744073709551616 := by
  delta ofLength
  dsimp only

theorem Integer.ofLength_eq {k : Nat} {n : Integer} (h : n.val = k) : ofLength k = n := by
  apply Integer.ext
  rw [val_ofLength, ← h, n.bmod_val]

theorem Integer.ofLength_add {k l : Nat} {n : Integer}
    (h : n.val = (ofLength k).val + (ofLength l).val) : ofLength (k + l) = n := by
  apply Integer.ext
  rw [← n.bmod_val, h, val_ofLength, val_ofLength, val_ofLength, ← Int.add_bmod, Int.natCast_add]

namespace Value

theorem itemAt_eq_ok {items : List α} {n : Integer} {k : Nat} (hk : k < items.length)
    (h : n.val = k) : itemAt items n = .ok items[k] := by
  simp [itemAt, h, hk]

theorem itemAt_eq_error {items : List α} {n : Integer}
    (h : ¬(0 ≤ n.val ∧ n.val < items.length)) :
    itemAt items n = .error (.indexOutOfRange n.val items.length) := by
  unfold itemAt
  split
  · next item hitem =>
    obtain ⟨hn, hitem⟩ := Option.ite_none_right_eq_some.1 hitem
    obtain ⟨hlt, -⟩ := List.getElem?_eq_some_iff.1 hitem
    omega
  · rfl

end Value

namespace IsSequence

variable {value value' : Value} {counter : Native} {items items' : List Value}

theorem promote (h : IsSequence value counter items) : value.promote = value := by
  cases h <;> rfl

theorem ne_print (h : IsSequence value counter items) : counter ≠ .print := by
  cases h <;> decide

theorem fits (h : IsSequence value counter items) : counter.overflows [value] = false := by
  cases h <;> rfl

theorem get (h : IsSequence value counter items) (n : Integer) :
    value.get n = Value.itemAt items n := by
  cases h with
  | list => rfl
  | string => exact (Value.itemAt_map ..).symm

theorem result (h : IsSequence value counter items) :
    counter.result [value] = .ok (.integer (.ofLength items.length)) := by
  cases h with
  | list => rfl
  | string => rw [List.length_map, String.length_toList]; rfl

/-- Sequences of one sort can be concatenated, which gives another one of that sort. -/
theorem append (h : IsSequence value counter items) (h' : IsSequence value' counter items') :
    ∃ both, IsSequence both counter (items ++ items') ∧
      ∀ text, Operation.add.apply text value value' = .ok both := by
  cases h with
  | list =>
    cases h' with
    | list => exact ⟨_, .list _, fun _ => rfl⟩
  | string s =>
    cases h' with
    | string s' =>
      have hboth := IsSequence.string (s ++ s')
      rw [String.toList_append, List.map_append] at hboth
      exact ⟨_, hboth, fun _ => rfl⟩

end IsSequence

theorem join_singletons (s : String) : String.join (s.toList.map String.singleton) = s := by
  have hchars (cs : List Char) : String.join (cs.map String.singleton) = String.ofList cs := by
    induction cs with
    | nil => rfl
    | cons c cs ih => rw [List.map_cons, String.join_cons, ih, String.ofList_cons]
  rw [hchars, String.ofList_toList]

theorem DeclaredType.accepts_promote (declared : DeclaredType) (value : Value) :
    declared.accepts value.promote = declared.accepts value := by
  cases value with
  | thin literal => cases literal <;> cases declared <;> rfl
  | _ => rfl

/-! ### The laws -/

namespace State

variable {σ : State} {call : Caller} {a b ab f i item : Expr} {counter : Native}
  {items items' : List Value} {index : Integer}

theorem Sequence.sum (ha : σ.Sequence call a counter items) (hb : σ.Sequence call b counter items')
    (hab : ab.IsSum a b) : σ.Sequence call ab counter (items ++ items') := by
  obtain ⟨value, hvalue, ha⟩ := ha
  obtain ⟨value', hvalue', hb⟩ := hb
  obtain ⟨both, hboth, happly⟩ := hvalue.append hvalue'
  exact ⟨both, hboth, gives_sum hab ha hb happly hboth.promote⟩

theorem Sequence.len (ha : σ.Sequence call a counter items) {lenA : Expr}
    (hf : σ.Gives call f (.native counter)) (hlen : lenA.IsCall f [a]) :
    σ.Gives call lenA (.integer (.ofLength items.length)) := by
  obtain ⟨value, hvalue, ha⟩ := ha
  exact gives_call hvalue.ne_print hlen hf (.cons ha .nil) hvalue.fits hvalue.result rfl

theorem Sequence.item_of_eq (ha : σ.Sequence call a counter items)
    (hi : σ.Gives call i (.integer index)) (hitem : item.IsItem a i) {k : Nat}
    (hk : k < items.length) (hindex : index.val = k) : σ.Gives call item items[k].promote := by
  obtain ⟨value, hvalue, ha⟩ := ha
  exact gives_item hitem ha hi ((hvalue.get index).trans (Value.itemAt_eq_ok hk hindex))

theorem Sequence.refuses (ha : σ.Sequence call a counter items)
    (hi : σ.Gives call i (.integer index)) (hitem : item.IsItem a i)
    (h : ¬(0 ≤ index.val ∧ index.val < items.length)) :
    σ.Refuses call item (.indexOutOfRange index.val items.length) := by
  obtain ⟨value, hvalue, ha⟩ := ha
  exact refuses_item hitem ha hi ((hvalue.get index).trans (Value.itemAt_eq_error h))

theorem Sequence.item_iff (ha : σ.Sequence call a counter items)
    (hi : σ.Gives call i (.integer index)) (hitem : item.IsItem a i) (value : Value) :
    σ.Gives call item value ↔
      0 ≤ index.val ∧ (items[index.val.toNat]?).map Value.promote = some value := by
  by_cases h : 0 ≤ index.val ∧ index.val < items.length
  · obtain ⟨k, hk⟩ := Int.eq_ofNat_of_zero_le h.1
    have hlt : k < items.length := by omega
    have hgives := ha.item_of_eq hi hitem hlt hk
    simp only [hk, Int.toNat_natCast, List.getElem?_eq_getElem hlt, Option.map_some,
      Option.some.injEq, Int.natCast_nonneg, true_and]
    exact ⟨fun hvalue => hgives.unique hvalue, fun hvalue => hvalue ▸ hgives⟩
  · refine ⟨fun hvalue => absurd (ha.refuses hi hitem h) hvalue.not_refuses, fun hvalue => ?_⟩
    obtain ⟨hpos, hvalue⟩ := hvalue
    obtain ⟨found, hfound, -⟩ := Option.map_eq_some_iff.1 hvalue
    obtain ⟨hlt, -⟩ := List.getElem?_eq_some_iff.1 hfound
    omega

theorem sequence_list {items : List Value} (ha : σ.Gives call a (.list items)) :
    σ.Sequence call a .listLen items :=
  ⟨_, .list items, ha⟩

theorem gives_push {x pushed : Expr} {value : Value} (ha : σ.Gives call a (.list items))
    (hx : σ.Gives call x value) (hf : σ.Gives call f (.native .listPush))
    (hpushed : pushed.IsCall f [a, x]) : σ.Gives call pushed (.list (items ++ [value])) :=
  gives_call (f := .listPush) (by decide) hpushed hf (.cons ha (.cons hx .nil)) rfl rfl rfl

theorem gives_list_sum (ha : σ.Gives call a (.list items)) (hb : σ.Gives call b (.list items'))
    (hab : ab.IsSum a b) : σ.Gives call ab (.list (items ++ items')) :=
  gives_sum hab ha hb (fun _ => rfl) rfl

section

variable {n upTo : Expr} {bound : Integer} (hn : σ.Gives call n (.integer bound))
  (hf : σ.Gives call f (.native .listRange)) (hupTo : upTo.IsCall f [n])

include hn hf hupTo

theorem gives_range (hbound : bound.val ≤ Native.listCapacity) :
    σ.Gives call upTo
      (.list ((List.range bound.val.toNat).map fun k => .integer (.ofLength k))) := by
  have hfits : Native.listRange.overflows [.integer bound] = false :=
    decide_eq_false (Nat.not_lt.2 (Int.toNat_le.2 hbound))
  exact gives_call (by decide) hupTo hf (.cons hn .nil) hfits rfl rfl

theorem exhausts_range (hbound : Native.listCapacity < bound.val) : σ.Exhausts call upTo := by
  have hoverflows : Native.listRange.overflows [.integer bound] :=
    decide_eq_true (Int.lt_toNat.2 hbound)
  intro m hm
  obtain ⟨m', -, heval⟩ := evaluate_call hupTo hf (.cons hn .nil) m hm
  rw [heval, Run.callNative_of_overflows hoverflows]
  exact ⟨m', rfl⟩

end

theorem accepts_append (element : DeclaredType) (items items' : List Value) :
    (DeclaredType.listOf element).accepts (.list (items ++ items')) ↔
      (DeclaredType.listOf element).accepts (.list items) ∧
      (DeclaredType.listOf element).accepts (.list items') := by
  simp only [DeclaredType.accepts, List.all_append, Bool.and_eq_true]

end State

end Script

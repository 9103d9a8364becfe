import Mathlib.Data.Set.Operations
import Script.Eval.Operator
import Script.Library.Native
import Script.Proofs.Value.Equality

/-!
# The functions in a value

A value is over a set of functions if all functions in it, at any depth, belong to the set.
Computing with values makes no function: what operators, indices and natives give is over every set
that their operands are over.
-/

namespace Script

variable {K : Set UserFunction}

namespace Value

variable {value : Value}

/-- All functions in the value belong to the set. -/
def Over (K : Set UserFunction) (value : Value) : Prop :=
  ∀ f, value.Holds f → f ∈ K

theorem Over.mono {K' : Set UserFunction} (h : value.Over K) (hK : K ⊆ K') : value.Over K' :=
  fun f hf => hK (h f hf)

/-- Values over a set whose functions have numbers of their own agree on what a number stands
for. -/
theorem Over.agrees {other : Value} (h : value.Over K) (h' : other.Over K)
    (hK : K.InjOn UserFunction.id) : value.Agrees other :=
  fun f g hf hg hid => hK (h f hf) (h' g hg) hid

@[simp]
theorem over_integer (n : Integer) : (integer n).Over K := nofun

@[simp]
theorem over_string (s : String) : (string s).Over K := nofun

@[simp]
theorem over_boolean (b : Bool) : (boolean b).Over K := nofun

@[simp]
theorem over_void : void.Over K := nofun

@[simp]
theorem over_type (t : ValueType) : (type t).Over K := nofun

@[simp]
theorem over_native (f : Native) : (native f).Over K := nofun

@[simp]
theorem over_thin (literal : ThinLiteral) : (thin literal).Over K := nofun

@[simp]
theorem over_function (f : UserFunction) : (function f).Over K ↔ f ∈ K :=
  ⟨fun h => h f .self, fun h g hg => by cases hg; exact h⟩

@[simp]
theorem over_list (items : List Value) : (list items).Over K ↔ ∀ item ∈ items, item.Over K := by
  constructor
  · exact fun h item hmem f hf => h f (.item hmem hf)
  · rintro h f (_ | ⟨hmem, hf⟩)
    exact h _ hmem f hf

@[simp]
theorem over_promote : value.promote.Over K ↔ value.Over K := by
  cases value with
  | thin literal => cases literal <;> simp [promote, ThinLiteral.value]
  | _ => rfl

theorem over_itemAt {items : List Value} {index : Integer} (h : ∀ item ∈ items, item.Over K)
    (hitem : itemAt items index = .ok value) : value.Over K := by
  unfold itemAt at hitem
  split at hitem
  · next item hsome =>
    cases hitem
    split at hsome
    · exact h value (List.mem_of_getElem? hsome)
    · cases hsome
  · cases hitem

theorem over_get {index : Integer} {item : Value} (h : value.Over K)
    (hitem : value.get index = .ok item) : item.Over K := by
  unfold get at hitem
  split at hitem
  · exact over_itemAt ((over_list _).1 h) hitem
  · next s =>
    cases hchar : itemAt s.toList index with
    | error cause => simp [hchar, Except.map] at hitem
    | ok c =>
      simp only [hchar, Except.map, Except.ok.injEq] at hitem
      exact hitem ▸ over_string _
  · cases hitem

end Value

theorem over_exactResult {result : Option Integer} {value : Value}
    (h : exactResult result = .ok value) : value.Over K := by
  unfold exactResult at h
  split at h
  · exact Except.ok.inj h ▸ Value.over_integer _
  · cases h

theorem over_divisionResult {divisor : Integer} {result : Option Integer} {value : Value}
    (h : divisionResult divisor result = .ok value) : value.Over K := by
  unfold divisionResult at h
  split at h
  · cases h
  · exact over_exactResult h

theorem Operation.over_apply {op : Operation} {symbol : String} {left right value : Value}
    (hleft : left.Over K) (hright : right.Over K) (h : op.apply symbol left right = .ok value) :
    value.Over K := by
  unfold apply at h
  split at h
  case h_9 items items' =>
    rw [← Except.ok.inj h, Value.over_list]
    rw [Value.over_list] at hleft hright
    exact List.forall_mem_append.2 ⟨hleft, hright⟩
  all_goals first
    | exact over_exactResult h
    | exact over_divisionResult h
    | cases h; simp
    | cases h

theorem UnaryOp.over_apply {op : UnaryOp} {symbol : String} {operand value : Value}
    (h : op.apply symbol operand = .ok value) : value.Over K := by
  unfold apply at h
  split at h
  · exact over_exactResult h
  · exact Except.ok.inj h ▸ Value.over_boolean _
  · cases h

namespace Native

variable {f : Native} {arguments : List Value} {value : Value}

theorem over_result? (harguments : ∀ argument ∈ arguments, argument.Over K)
    (h : f.result? arguments = some value) : value.Over K := by
  unfold result? at h
  split at h
  case h_3 =>
    simp only [List.forall_mem_cons, Value.over_list] at harguments
    rw [← Option.some.inj h, Value.over_list]
    exact List.forall_mem_append.2 ⟨harguments.1, by simpa using harguments.2.1⟩
  all_goals cases h
  all_goals simp

theorem result?_of_result (h : f.result arguments = .ok value) :
    f.result? arguments = some value := by
  unfold result at h
  rcases hresult : f.result? arguments with _ | other
  all_goals rcases harity : f.arity? with _ | expected
  all_goals simp only [harity, hresult] at h
  · cases h
  · rcases hcheck : checkArity expected arguments.length with cause | _ <;> rw [hcheck] at h <;>
      cases h
  · rw [Except.ok.inj h]
  · rcases hcheck : checkArity expected arguments.length with cause | _ <;> rw [hcheck] at h
    · cases h
    · rw [Except.ok.inj h]

theorem over_call {sink sink' : Sink} (harguments : ∀ argument ∈ arguments, argument.Over K)
    (h : f.call arguments sink = (.ok value, sink')) : value.Over K := by
  unfold call at h
  split at h
  · split at h <;> cases h
    exact Value.over_void
  · exact over_result? harguments (result?_of_result (congrArg Prod.fst h))

end Native

end Script

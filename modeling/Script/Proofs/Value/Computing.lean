import Script.Eval.Call
import Script.Proofs.Value.Promotion

/-!
# Computing with promoted values

Operators and natives take values that are no longer thin themselves, though there may be thin items
in a list among them. What they give for values that a transparent map was applied to is what they
give without it, mapped; and they refuse the same, with the same words.
-/

namespace Script

open Value

/-- No operation but a comparison knows operands of two types. -/
theorem Operation.apply_of_typeOf_ne (op : Operation) (symbol : String) {left right : Value}
    (h : left.typeOf ≠ right.typeOf) :
    op.apply symbol left right =
      match op with
      | equals => .ok (.boolean false)
      | notEquals => .ok (.boolean true)
      | _ => .error (.invalidOperation symbol left.typeOf.name right.typeOf.name) := by
  have hequals : left.equals right = false :=
    Bool.eq_false_iff.2 fun hequals => h (typeOf_of_equals hequals)
  unfold apply
  split
  case h_18 => cases op <;> first | rfl | contradiction
  all_goals first
    | exact absurd rfl h
    | rw [hequals]
  rfl

theorem Value.itemAt_map (f : α → β) (items : List α) (index : Integer) :
    itemAt (items.map f) index = (itemAt items index).map f := by
  unfold itemAt
  rw [List.getElem?_map, List.length_map]
  by_cases h : 0 ≤ index.val
  · simp only [if_pos h]
    cases items[index.val.toNat]? <;> rfl
  · simp only [if_neg h]
    rfl

namespace Transparent

variable {ρ : Nat → Nat} {φ : Value → Value} {δ : Displacement} (hφ : Transparent ρ φ δ)

include hφ

/-! ### Conditions, indices and operators -/

theorem condition (value : Value) : (φ value).condition = value.condition := by
  by_cases hlist : value.typeOf = .list
  · obtain ⟨items, rfl⟩ := eq_list_of_typeOf hlist
    rw [hφ.list]
    rfl
  · by_cases hfunction : value.typeOf = .function
    · exact hφ.observe_function Value.condition (fun _ => rfl) hfunction
    · rw [Value.condition, Value.condition, hφ.promote_of_plain hlist hfunction]

theorem asIndex (value : Value) : (φ value).asIndex = value.asIndex := by
  by_cases hlist : value.typeOf = .list
  · obtain ⟨items, rfl⟩ := eq_list_of_typeOf hlist
    rw [hφ.list]
    rfl
  · by_cases hfunction : value.typeOf = .function
    · exact hφ.observe_function Value.asIndex (fun _ => rfl) hfunction
    · rw [Value.asIndex, Value.asIndex, hφ.promote_of_plain hlist hfunction]

theorem promoted_of_plain {value : Value} (hlist : value.typeOf ≠ .list)
    (hfunction : value.typeOf ≠ .function) : φ value.promote = value.promote := by
  rw [← hφ.promote, hφ.promote_of_plain hlist hfunction]

theorem get (value : Value) (index : Integer) :
    (φ value.promote).get index = (value.promote.get index).map φ := by
  by_cases hlist : value.typeOf = .list
  · obtain ⟨items, rfl⟩ := eq_list_of_typeOf hlist
    change (φ (.list items)).get index = (Value.itemAt items index).map φ
    rw [hφ.list]
    exact itemAt_map φ items index
  · by_cases hfunction : value.typeOf = .function
    · obtain ⟨f, rfl⟩ | ⟨f, rfl⟩ := eq_function_of_typeOf hfunction
      · exact congrArg (Value.get · index) (hφ.function f)
      · exact congrArg (Value.get · index) (hφ.native f)
    · rw [hφ.promoted_of_plain hlist hfunction]
      unfold Value.get
      split
      · next heq =>
        rw [← typeOf_promote, heq] at hlist
        exact absurd rfl hlist
      · cases Value.itemAt _ index with
        | error cause => rfl
        | ok c => simp [Except.map, hφ.string]
      · rfl

theorem exactResult (result : Option Integer) :
    (Script.exactResult result).map φ = Script.exactResult result := by
  cases result with
  | none => rfl
  | some n => simp [Script.exactResult, Except.map, hφ.integer]

theorem divisionResult (divisor : Integer) (result : Option Integer) :
    (Script.divisionResult divisor result).map φ = Script.divisionResult divisor result := by
  unfold Script.divisionResult
  split
  · rfl
  · exact hφ.exactResult result

theorem apply_of_plain (op : Operation) (symbol : String) {left right : Value}
    (h : left.typeOf ≠ .list) :
    (op.apply symbol left right).map φ = op.apply symbol left right := by
  unfold Operation.apply
  split
  case h_9 => exact absurd rfl h
  all_goals first
    | exact hφ.exactResult _
    | exact hφ.divisionResult _ _
    | rfl
    | simp only [Except.map, hφ.boolean, hφ.string]

theorem apply_list (op : Operation) (symbol : String) (items items' : List Value) :
    op.apply symbol (φ (.list items)) (φ (.list items')) =
      (op.apply symbol (.list items) (.list items')).map φ := by
  have hequals := hφ.equals (.list items) (.list items')
  rw [hφ.list, hφ.list] at hequals ⊢
  cases op <;> simp [Operation.apply, Except.map, hequals, hφ.boolean, hφ.list, Value.typeOf]

omit hφ in
theorem apply_of_function (op : Operation) (symbol : String) {left : Value}
    (h : left.typeOf = .function) (right : Value) :
    op.apply symbol left right =
      match op with
      | .equals => .ok (.boolean (left.equals right))
      | .notEquals => .ok (.boolean !(left.equals right))
      | _ => .error (.invalidOperation symbol left.typeOf.name right.typeOf.name) := by
  obtain ⟨f, rfl⟩ | ⟨f, rfl⟩ := eq_function_of_typeOf h <;> cases op <;> rfl

theorem apply_function (op : Operation) (symbol : String) {left : Value}
    (h : left.typeOf = .function) (right : Value) :
    op.apply symbol (φ left) (φ right) = (op.apply symbol left right).map φ := by
  rw [apply_of_function op symbol (by rwa [hφ.typeOf]), apply_of_function op symbol h,
    hφ.equals, hφ.typeOf, hφ.typeOf]
  cases op <;> simp [Except.map, hφ.boolean]

theorem apply (op : Operation) (symbol : String) (left right : Value) :
    op.apply symbol (φ left.promote) (φ right.promote) =
      (op.apply symbol left.promote right.promote).map φ := by
  by_cases hsame : left.promote.typeOf = right.promote.typeOf
  · by_cases hlist : left.promote.typeOf = .list
    · obtain ⟨items, hleft⟩ := eq_list_of_typeOf hlist
      obtain ⟨items', hright⟩ := eq_list_of_typeOf (hsame ▸ hlist)
      rw [hleft, hright, hφ.apply_list]
    · by_cases hfunction : left.promote.typeOf = .function
      · exact hφ.apply_function op symbol hfunction _
      · rw [hφ.apply_of_plain op symbol hlist]
        rw [typeOf_promote, typeOf_promote] at hsame
        rw [typeOf_promote] at hlist hfunction
        rw [hφ.promoted_of_plain hlist hfunction,
          hφ.promoted_of_plain (hsame ▸ hlist) (hsame ▸ hfunction)]
  · have hne : (φ left.promote).typeOf ≠ (φ right.promote).typeOf := by rwa [hφ.typeOf, hφ.typeOf]
    rw [op.apply_of_typeOf_ne symbol hne, op.apply_of_typeOf_ne symbol hsame, hφ.typeOf, hφ.typeOf]
    cases op <;> simp [Except.map, hφ.boolean]

theorem unary_apply (op : UnaryOp) (symbol : String) (value : Value) :
    op.apply symbol (φ value.promote) = (op.apply symbol value.promote).map φ := by
  have hresult : (op.apply symbol value.promote).map φ = op.apply symbol value.promote := by
    unfold UnaryOp.apply
    split
    · exact hφ.exactResult _
    · simp only [Except.map, hφ.boolean]
    · rfl
  rw [hresult]
  by_cases hlist : value.typeOf = .list
  · obtain ⟨items, rfl⟩ := eq_list_of_typeOf hlist
    simp only [Value.promote, hφ.list]
    cases op <;> rfl
  · by_cases hfunction : value.typeOf = .function
    · refine hφ.observe_function (op.apply symbol) (fun _ => ?_) (by rwa [typeOf_promote])
      cases op <;> rfl
    · rw [hφ.promoted_of_plain hlist hfunction]

/-! ### Arguments -/

theorem checkTypes (parameters : List (Identifier × Option DeclaredType)) (arguments : List Value) :
    UserFunction.checkTypes parameters (arguments.map φ) =
      UserFunction.checkTypes parameters arguments := by
  induction parameters generalizing arguments with
  | nil => cases arguments <;> rfl
  | cons parameter parameters ih =>
    cases arguments with
    | nil => obtain ⟨name, _ | declared⟩ := parameter <;> rfl
    | cons argument arguments =>
      obtain ⟨name, _ | declared⟩ := parameter
      · exact ih arguments
      · rw [List.map_cons, UserFunction.checkTypes, UserFunction.checkTypes, hφ.accepts, hφ.typeOf,
          ih]

omit hφ in
theorem checkTypes_move (parameters : List (Identifier × Option DeclaredType))
    (arguments : List Value) :
    UserFunction.checkTypes (parameters.map fun p => (p.1.move δ, p.2)) arguments =
      UserFunction.checkTypes parameters arguments := by
  induction parameters generalizing arguments with
  | nil => cases arguments <;> rfl
  | cons parameter parameters ih =>
    cases arguments with
    | nil => obtain ⟨name, _ | declared⟩ := parameter <;> rfl
    | cons argument arguments =>
      obtain ⟨name, _ | declared⟩ := parameter
      · exact ih arguments
      · rw [List.map_cons, UserFunction.checkTypes, UserFunction.checkTypes, ih]
        rfl

theorem checkArguments (f : UserFunction) (arguments : List Value) :
    ((f.move δ).renumber ρ).checkArguments (arguments.map φ) = f.checkArguments arguments := by
  rw [UserFunction.checkArguments, UserFunction.checkArguments, List.length_map,
    UserFunction.renumber, UserFunction.move, List.length_map, hφ.checkTypes, checkTypes_move]

/-! ### Natives -/

theorem native_result?_one (f : Native) {value : Value} (h : value.promote = value) :
    f.result? [φ value] = (f.result? [value]).map φ := by
  have hresult : (f.result? [value]).map φ = f.result? [value] := by
    unfold Native.result?
    split
    case h_3 hargs => simp at hargs
    all_goals simp [hφ.void, hφ.integer, hφ.string, hφ.list]
  by_cases hlist : value.typeOf = .list
  · obtain ⟨items, rfl⟩ := eq_list_of_typeOf hlist
    have hdisplay := hφ.display (.list items)
    rw [hφ.list] at hdisplay ⊢
    cases f <;> simp [Native.result?, hφ.void, hφ.integer, hφ.string, hdisplay]
  · rw [hresult]
    by_cases hfunction : value.typeOf = .function
    · refine hφ.observe_function (fun value => f.result? [value]) (fun _ => ?_) hfunction
      cases f <;> rfl
    · rw [← h, hφ.promoted_of_plain hlist hfunction]

omit hφ in
theorem result?_listPush_of_not_list {first : Value} (h : first.typeOf ≠ .list)
    (rest : List Value) : Native.listPush.result? (first :: rest) = none := by
  cases first with
  | list items => exact absurd rfl h
  | _ => rfl

theorem native_result?_many (f : Native) {first second : Value} (h : first.promote = first)
    (rest : List Value) :
    f.result? (φ first :: φ second :: rest.map φ) =
      (f.result? (first :: second :: rest)).map φ := by
  cases f with
  | print => simp [Native.result?, hφ.void]
  | listPush =>
    by_cases hlist : first.typeOf = .list
    · obtain ⟨items, rfl⟩ := eq_list_of_typeOf hlist
      rw [hφ.list]
      cases rest <;> simp [Native.result?, hφ.list]
    · have hlist' : (φ first).typeOf ≠ .list := by rwa [hφ.typeOf]
      rw [result?_listPush_of_not_list hlist, result?_listPush_of_not_list hlist']
      rfl
  | _ => simp [Native.result?]

theorem native_result? (f : Native) {arguments : List Value}
    (h : ∀ value ∈ arguments, value.promote = value) :
    f.result? (arguments.map φ) = (f.result? arguments).map φ :=
  match arguments with
  | [] => by cases f <;> simp [Native.result?, hφ.void]
  | [value] => hφ.native_result?_one f (h value (by simp))
  | first :: _ :: rest => hφ.native_result?_many f (h first (by simp)) rest

theorem typeOf_headD (arguments : List Value) :
    ((arguments.map φ).headD .void).typeOf = (arguments.headD .void).typeOf := by
  cases arguments with
  | nil => rfl
  | cons first rest => exact hφ.typeOf first

/-- A native gives the same for arguments that are not thin themselves. -/
theorem native_result (f : Native) {arguments : List Value}
    (h : ∀ value ∈ arguments, value.promote = value) :
    f.result (arguments.map φ) = (f.result arguments).map φ := by
  unfold Native.result
  rw [hφ.native_result? f h, hφ.typeOf_headD, List.length_map]
  cases f.arity? with
  | none => cases f.result? arguments <;> rfl
  | some expected =>
    dsimp only
    cases checkArity expected arguments.length with
    | error cause => rfl
    | ok _ => cases f.result? arguments <;> rfl

theorem line (arguments : List Value) : Native.line (arguments.map φ) = Native.line arguments := by
  have hmap : arguments.map (Value.display ∘ φ) = arguments.map Value.display :=
    List.map_congr_left fun value _ => hφ.display value
  rw [Native.line, Native.line, List.map_map, hmap]

theorem native_call (f : Native) {arguments : List Value}
    (h : ∀ value ∈ arguments, value.promote = value) (sink : Sink) :
    f.call (arguments.map φ) sink =
      ((f.call arguments sink).1.map φ, (f.call arguments sink).2) := by
  cases f with
  | print =>
    simp only [Native.call, hφ.line]
    split <;> simp [Except.map, hφ.void]
  | _ => exact congrArg (·, sink) (hφ.native_result _ h)

theorem native_overflows (f : Native) {arguments : List Value}
    (h : ∀ value ∈ arguments, value.promote = value) :
    f.overflows (arguments.map φ) = f.overflows arguments := by
  match arguments with
  | [] => rfl
  | _ :: _ :: _ => cases f <;> simp [Native.overflows]
  | [value] =>
    rw [List.map_singleton]
    by_cases hlist : value.typeOf = .list
    · obtain ⟨items, rfl⟩ := eq_list_of_typeOf hlist
      rw [hφ.list]
      cases f <;> rfl
    · by_cases hfunction : value.typeOf = .function
      · refine hφ.observe_function (fun value => f.overflows [value]) (fun _ => ?_) hfunction
        cases f <;> rfl
      · rw [← h value (by simp), hφ.promoted_of_plain hlist hfunction]

end Transparent

end Script

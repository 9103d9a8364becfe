import Mathlib.Logic.Function.Basic
import Script.Proofs.Syntax.Moved

/-!
# Maps of values that go unseen

A map of values is transparent when it changes nothing but, here and there, a thin literal for the
value it stands for, the numbers of functions, which it keeps apart, and the places where they were
written, also in lists and in lists of lists. What can be seen of a value is the same before and after: its type, its text, what it
equals and which declared types accept it.
-/

namespace Script

open Value

/-- The function under another number. -/
def UserFunction.renumber (ρ : Nat → Nat) (f : UserFunction) : UserFunction :=
  { f with id := ρ f.id }

/-- At any depth either leaves a thin literal or promotes it, renumbers and moves functions, and
changes nothing else. -/
structure Transparent (ρ : Nat → Nat) (φ : Value → Value) (δ : Displacement := .id) : Prop where
  injective : ρ.Injective
  thin : ∀ literal, φ (.thin literal) = .thin literal ∨ φ (.thin literal) = literal.value
  list : ∀ items, φ (.list items) = .list (items.map φ)
  integer : ∀ n, φ (.integer n) = .integer n
  string : ∀ s, φ (.string s) = .string s
  boolean : ∀ b, φ (.boolean b) = .boolean b
  void : φ .void = .void
  function : ∀ f, φ (.function f) = .function ((f.move δ).renumber ρ)
  native : ∀ f, φ (.native f) = .native f
  type : ∀ t, φ (.type t) = .type t

theorem transparent_id : Transparent id id where
  injective := Function.injective_id
  thin _ := .inl rfl
  list items := by rw [List.map_id]; rfl
  integer _ := rfl
  string _ := rfl
  boolean _ := rfl
  void := rfl
  function f := by rw [UserFunction.move_id]; rfl
  native _ := rfl
  type _ := rfl

namespace Value

mutual

/-- Promotes a value and everything in it. -/
def promoteAll : Value → Value
  | thin literal => literal.value
  | list items => list (promoteItems items)
  | value => value

/-- Promotes the items of a list and everything in them. -/
def promoteItems : List Value → List Value
  | [] => []
  | item :: items => promoteAll item :: promoteItems items

end

theorem promoteItems_eq_map (items : List Value) : promoteItems items = items.map promoteAll := by
  induction items with
  | nil => rw [promoteItems, List.map_nil]
  | cons item items ih => rw [promoteItems, ih, List.map_cons]

theorem transparent_promoteAll : Transparent id promoteAll where
  injective := Function.injective_id
  thin literal := .inr (by rw [promoteAll])
  list items := by rw [promoteAll, promoteItems_eq_map]
  integer _ := by simp [promoteAll]
  string _ := by simp [promoteAll]
  boolean _ := by simp [promoteAll]
  void := by simp [promoteAll]
  function _ := by simp [promoteAll, UserFunction.renumber, UserFunction.move_id]
  native _ := by simp [promoteAll]
  type _ := by simp [promoteAll]

mutual

/-- Renumbers a function, or all functions in a list. -/
def renumber (ρ : Nat → Nat) : Value → Value
  | list items => list (renumberItems ρ items)
  | function f => function (f.renumber ρ)
  | value => value

def renumberItems (ρ : Nat → Nat) : List Value → List Value
  | [] => []
  | item :: items => renumber ρ item :: renumberItems ρ items

end

theorem renumberItems_eq_map (ρ : Nat → Nat) (items : List Value) :
    renumberItems ρ items = items.map (renumber ρ) := by
  induction items with
  | nil => rw [renumberItems, List.map_nil]
  | cons item items ih => rw [renumberItems, ih, List.map_cons]

theorem transparent_renumber {ρ : Nat → Nat} (h : ρ.Injective) : Transparent ρ (renumber ρ) where
  injective := h
  thin _ := .inl (by simp [renumber])
  list items := by rw [renumber, renumberItems_eq_map]
  integer _ := by simp [renumber]
  string _ := by simp [renumber]
  boolean _ := by simp [renumber]
  void := by simp [renumber]
  function _ := by simp [renumber, UserFunction.move_id]
  native _ := by simp [renumber]
  type _ := by simp [renumber]

theorem transparent_move (δ : Displacement) : Transparent id (move δ) δ where
  injective := Function.injective_id
  thin _ := .inl (by simp [move])
  list items := by rw [move, moveAll_eq_map]
  integer _ := by simp [move]
  string _ := by simp [move]
  boolean _ := by simp [move]
  void := by simp [move]
  function _ := by simp [move, UserFunction.renumber]
  native _ := by simp [move]
  type _ := by simp [move]

/-- Induction over lists in lists. -/
theorem list_induction {P : Value → Prop}
    (hlist : ∀ items, (∀ item ∈ items, P item) → P (list items))
    (hother : ∀ value, value.typeOf ≠ .list → P value) (value : Value) : P value := by
  apply Value.rec (motive_1 := P) (motive_2 := fun items => ∀ item ∈ items, P item)
  case list => exact fun items ih => hlist items ih
  case nil => exact nofun
  case cons => exact fun item items ih ihs => List.forall_mem_cons.2 ⟨ih, ihs⟩
  case thin => exact fun literal => hother _ (by cases literal <;> nofun)
  all_goals intros; exact hother _ nofun

theorem eq_list_of_typeOf {value : Value} (h : value.typeOf = .list) :
    ∃ items, value = list items := by
  cases value with
  | list items => exact ⟨items, rfl⟩
  | thin literal => cases literal <;> cases h
  | _ => cases h

theorem eq_function_of_typeOf {value : Value} (h : value.typeOf = .function) :
    (∃ f, value = function f) ∨ ∃ f, value = native f := by
  cases value with
  | function f => exact .inl ⟨f, rfl⟩
  | native f => exact .inr ⟨f, rfl⟩
  | thin literal => cases literal <;> cases h
  | _ => cases h

/-! ### Values and what they promote to -/

theorem display_promote (value : Value) : value.promote.display = value.display := by
  cases value with
  | thin literal => cases literal <;> rfl
  | _ => rfl

theorem typeOf_promote (value : Value) : value.promote.typeOf = value.typeOf := by
  cases value with
  | thin literal => cases literal <;> rfl
  | _ => rfl

theorem promote_promote (value : Value) : value.promote.promote = value.promote := by
  cases value with
  | thin literal => cases literal <;> rfl
  | _ => rfl

theorem promote_promoteAll (value : Value) : value.promoteAll.promote = value.promoteAll := by
  cases value with
  | thin literal => cases literal <;> rfl
  | _ => rfl

theorem promoteAll_promoteAll (value : Value) : value.promoteAll.promoteAll = value.promoteAll := by
  induction value using list_induction with
  | hlist items ih =>
    simp only [transparent_promoteAll.list, List.map_map]
    exact congrArg list (List.map_congr_left ih)
  | hother value h =>
    cases value with
    | list items => exact absurd rfl h
    | thin literal => cases literal <;> simp [promoteAll, ThinLiteral.value]
    | _ => simp [promoteAll]

/-- The text of a value as an item of a list. -/
def displayItem : Value → String
  | string s | thin (.string s) => quote s
  | value => value.display

theorem displayItem_promote (value : Value) : value.promote.displayItem = value.displayItem := by
  cases value with
  | thin literal => cases literal <;> rfl
  | _ => rfl

theorem displayItems_eq_map (items : List Value) : displayItems items = items.map displayItem := by
  induction items with
  | nil => rfl
  | cons item items ih =>
    rw [List.map_cons, ← ih]
    cases item with
    | thin literal => cases literal <;> rfl
    | _ => rfl

theorem display_list (items : List Value) :
    (list items).display = "[" ++ ", ".intercalate (items.map displayItem) ++ "]" := by
  rw [← displayItems_eq_map]
  rfl

theorem equals_thin_left (literal : ThinLiteral) (value : Value) :
    (thin literal).equals value = literal.equals value :=
  rfl

theorem equals_thin_right (value : Value) (literal : ThinLiteral) :
    value.equals (thin literal) = literal.equals value := by
  cases value with
  | thin literal' =>
    cases literal <;> cases literal' <;> simp [equals_thin_left, ThinLiteral.equals, Bool.beq_comm]
  | _ => rfl

mutual

theorem equals_comm : (value other : Value) → value.equals other = other.equals value
  | list items, list items' => allEqual_comm items items'
  | thin literal, other => by rw [equals_thin_left, equals_thin_right]
  | value, thin literal => by rw [equals_thin_left, equals_thin_right]
  | integer _, other | string _, other | boolean _, other | void, other | function _, other
  | native _, other | type _, other => by
    cases other <;> simp only [equals, BEq.comm]
  | list items, integer _ | list items, string _ | list items, boolean _ | list items, void
  | list items, function _ | list items, native _ | list items, type _ => rfl

theorem allEqual_comm : (items items' : List Value) → allEqual items items' = allEqual items' items
  | [], [] | [], _ :: _ | _ :: _, [] => rfl
  | item :: items, item' :: items' => by
    rw [allEqual, allEqual, equals_comm item item', allEqual_comm items items']

end

theorem equals_promote (value other : Value) : value.promote.equals other = value.equals other := by
  cases value with
  | thin literal =>
    rw [equals_thin_left]
    cases literal <;> cases other with
    | thin literal' => cases literal' <;> simp [promote, ThinLiteral.value, equals_thin_right,
        ThinLiteral.equals, Bool.beq_comm]
    | _ => rfl
  | _ => rfl

theorem promote_equals_promote (value other : Value) :
    value.promote.equals other.promote = value.equals other := by
  rw [equals_promote, equals_comm, equals_promote, equals_comm]

theorem typeOf_of_equals {value other : Value} (h : value.equals other) :
    value.typeOf = other.typeOf := by
  cases value with
  | thin literal =>
    rw [equals_thin_left] at h
    cases literal <;> cases other with
    | thin literal' => cases literal' <;> first | rfl | cases h
    | _ => first | rfl | cases h
  | _ =>
    cases other with
    | thin literal' => cases literal' <;> first | rfl | cases h
    | _ => first | rfl | cases h

end Value

namespace DeclaredType

variable {value : Value}

theorem accepts_listOf_of_typeOf (h : value.typeOf ≠ .list) (element : DeclaredType) :
    (listOf element).accepts value = false := by
  cases value with
  | list items => exact absurd rfl h
  | _ => rfl

theorem offence_listOf_of_typeOf (h : value.typeOf ≠ .list) (element : DeclaredType) :
    (listOf element).offence value = value.typeOf.name := by
  cases value with
  | list items => exact absurd rfl h
  | _ => rfl

end DeclaredType

namespace Transparent

variable {ρ : Nat → Nat} {φ : Value → Value} {δ : Displacement} (hφ : Transparent ρ φ δ)

include hφ

theorem value (literal : ThinLiteral) : φ literal.value = literal.value := by
  cases literal with
  | integer n => exact hφ.integer n
  | string s => exact hφ.string s
  | boolean b => exact hφ.boolean b
  | nil => exact hφ.void

theorem promote_of_plain {value : Value} (hlist : value.typeOf ≠ .list)
    (hfunction : value.typeOf ≠ .function) : (φ value).promote = value.promote := by
  cases value with
  | list items => exact absurd rfl hlist
  | function f => exact absurd rfl hfunction
  | native f => exact absurd rfl hfunction
  | integer n => rw [hφ.integer]
  | string s => rw [hφ.string]
  | boolean b => rw [hφ.boolean]
  | void => rw [hφ.void]
  | type t => rw [hφ.type]
  | thin literal =>
    rcases hφ.thin literal with hthin | hthin
    · rw [hthin]
    · rw [hthin]
      cases literal <;> rfl

theorem promote (value : Value) : (φ value).promote = φ value.promote := by
  cases value with
  | thin literal =>
    rw [hφ.promote_of_plain (by cases literal <;> nofun) (by cases literal <;> nofun)]
    exact (hφ.value literal).symm
  | list items => simp only [hφ.list, Value.promote]
  | integer n => simp only [hφ.integer, Value.promote]
  | string s => simp only [hφ.string, Value.promote]
  | boolean b => simp only [hφ.boolean, Value.promote]
  | void => simp only [hφ.void, Value.promote]
  | function f => simp only [hφ.function, Value.promote]
  | native f => simp only [hφ.native, Value.promote]
  | type t => simp only [hφ.type, Value.promote]

/-- Of a function the number and places change, and what does not tell these apart stays. -/
theorem observe_function (g : Value → α)
    (hg : ∀ f, g (.function ((f.move δ).renumber ρ)) = g (.function f)) {value : Value}
    (h : value.typeOf = .function) : g (φ value) = g value := by
  obtain ⟨f, rfl⟩ | ⟨f, rfl⟩ := eq_function_of_typeOf h
  · rw [hφ.function, hg]
  · rw [hφ.native]

theorem typeOf (value : Value) : (φ value).typeOf = value.typeOf := by
  by_cases hlist : value.typeOf = .list
  · obtain ⟨items, rfl⟩ := eq_list_of_typeOf hlist
    rw [hφ.list]
    rfl
  · by_cases hfunction : value.typeOf = .function
    · exact hφ.observe_function Value.typeOf (fun _ => rfl) hfunction
    · rw [← typeOf_promote, hφ.promote_of_plain hlist hfunction, typeOf_promote]

theorem displayItem (value : Value) : (φ value).displayItem = value.displayItem := by
  induction value using list_induction with
  | hlist items ih =>
    have hmap : (items.map φ).map Value.displayItem = items.map Value.displayItem := by
      rw [List.map_map]
      exact List.map_congr_left ih
    change (φ (.list items)).displayItem = (Value.list items).display
    rw [hφ.list]
    change (Value.list (items.map φ)).display = _
    rw [display_list, display_list, hmap]
  | hother value hlist =>
    by_cases hfunction : value.typeOf = .function
    · exact hφ.observe_function Value.displayItem (fun _ => rfl) hfunction
    · rw [← displayItem_promote, hφ.promote_of_plain hlist hfunction, displayItem_promote]

theorem display (value : Value) : (φ value).display = value.display := by
  induction value using list_induction with
  | hlist items ih =>
    have h := hφ.displayItem (.list items)
    rw [hφ.list] at h ⊢
    exact h
  | hother value hlist =>
    by_cases hfunction : value.typeOf = .function
    · exact hφ.observe_function Value.display (fun _ => rfl) hfunction
    · rw [← display_promote, hφ.promote_of_plain hlist hfunction, display_promote]

omit hφ in
theorem allEqual {items : List Value}
    (h : ∀ item ∈ items, ∀ other, (φ item).equals (φ other) = item.equals other)
    (items' : List Value) :
    Value.allEqual (items.map φ) (items'.map φ) = Value.allEqual items items' := by
  induction items generalizing items' with
  | nil => cases items' <;> rfl
  | cons item items ih =>
    cases items' with
    | nil => rfl
    | cons item' items' =>
      rw [List.forall_mem_cons] at h
      rw [List.map_cons, List.map_cons, Value.allEqual, Value.allEqual, h.1, ih h.2]

theorem equals_of_typeOf {value other : Value} (h : value.typeOf ≠ other.typeOf) :
    (φ value).equals (φ other) = value.equals other := by
  have hbefore : ¬value.equals other := fun hequals => h (typeOf_of_equals hequals)
  have hafter : ¬(φ value).equals (φ other) := fun hequals => by
    have htype := typeOf_of_equals hequals
    rw [hφ.typeOf, hφ.typeOf] at htype
    exact h htype
  rw [Bool.eq_false_iff.2 hbefore, Bool.eq_false_iff.2 hafter]

theorem equals_function {value other : Value} (h : value.typeOf = .function)
    (h' : other.typeOf = .function) : (φ value).equals (φ other) = value.equals other := by
  obtain ⟨f, rfl⟩ | ⟨f, rfl⟩ := eq_function_of_typeOf h
  · obtain ⟨g, rfl⟩ | ⟨g, rfl⟩ := eq_function_of_typeOf h'
    · rw [hφ.function, hφ.function, Value.equals, Value.equals, Bool.eq_iff_iff, beq_iff_eq,
        beq_iff_eq]
      exact hφ.injective.eq_iff
    · rw [hφ.function, hφ.native]
      rfl
  · obtain ⟨g, rfl⟩ | ⟨g, rfl⟩ := eq_function_of_typeOf h'
    · rw [hφ.function, hφ.native]
      rfl
    · rw [hφ.native, hφ.native]

theorem equals (value other : Value) : (φ value).equals (φ other) = value.equals other := by
  by_cases hsame : value.typeOf = other.typeOf
  · induction value using list_induction generalizing other with
    | hlist items ih =>
      obtain ⟨items', rfl⟩ := eq_list_of_typeOf hsame.symm
      rw [hφ.list, hφ.list]
      refine allEqual (fun item hmem other => ?_) items'
      by_cases hitem : item.typeOf = other.typeOf
      · exact ih item hmem other hitem
      · exact hφ.equals_of_typeOf hitem
    | hother value hlist =>
      by_cases hfunction : value.typeOf = .function
      · exact hφ.equals_function hfunction (hsame ▸ hfunction)
      · rw [← promote_equals_promote, hφ.promote_of_plain hlist hfunction,
          hφ.promote_of_plain (hsame ▸ hlist) (hsame ▸ hfunction), promote_equals_promote]
  · exact hφ.equals_of_typeOf hsame

/-! ### Declared types -/

theorem accepts (declared : DeclaredType) (value : Value) :
    declared.accepts (φ value) = declared.accepts value := by
  induction declared generalizing value with
  | exactly t => rw [DeclaredType.accepts, DeclaredType.accepts, hφ.typeOf]
  | listOf element ih =>
    by_cases h : value.typeOf = .list
    · obtain ⟨items, rfl⟩ := eq_list_of_typeOf h
      rw [hφ.list, DeclaredType.accepts, DeclaredType.accepts, List.all_map]
      exact congrArg items.all (funext ih)
    · rw [DeclaredType.accepts_listOf_of_typeOf h,
        DeclaredType.accepts_listOf_of_typeOf (by rwa [hφ.typeOf])]

theorem offence (declared : DeclaredType) (value : Value) :
    declared.offence (φ value) = declared.offence value := by
  cases declared with
  | exactly t => exact congrArg ValueType.name (hφ.typeOf value)
  | listOf element =>
    by_cases h : value.typeOf = .list
    · obtain ⟨items, rfl⟩ := eq_list_of_typeOf h
      have hfind : (fun item => !element.accepts item) ∘ φ = fun item => !element.accepts item :=
        funext fun item => congrArg not (hφ.accepts element item)
      rw [hφ.list]
      simp only [DeclaredType.offence, List.find?_map, hfind]
      cases items.find? fun item => !element.accepts item with
      | none => rfl
      | some item => simp only [Option.map_some, hφ.typeOf]
    · rw [DeclaredType.offence_listOf_of_typeOf h,
        DeclaredType.offence_listOf_of_typeOf (by rwa [hφ.typeOf]), hφ.typeOf]

theorem check (declared : DeclaredType) (value : Value) :
    declared.check (φ value) = declared.check value := by
  rw [DeclaredType.check, DeclaredType.check, hφ.accepts, hφ.offence]

end Transparent

end Script

import Script.Proofs.Value.Promotion

/-!
# Equality of values

All that equality asks of a value is its key: the value without the difference between a literal
that is thin and the value that it stands for, at any depth, with the number alone of a function and
the name alone of a native. So equality is an equivalence, and promoting values changes no answer of it.
A key tells the type and, as far as a number stands for one function, the text.
-/

namespace Script

/-- What equality looks at in a value. -/
inductive Key where
  | integer (n : Integer)
  | string (s : String)
  | boolean (b : Bool)
  | list (keys : List Key)
  | void
  | function (id : Nat)
  | native (name : String)
  | type (t : ValueType)

def Key.typeOf : Key → ValueType
  | integer _ => .integer
  | string _ => .string
  | boolean _ => .boolean
  | list _ => .list
  | void => .void
  | function _ | native _ => .function
  | type _ => .type

namespace Value

mutual

def key : Value → Key
  | integer n | thin (.integer n) => .integer n
  | string s | thin (.string s) => .string s
  | boolean b | thin (.boolean b) => .boolean b
  | list items => .list (keys items)
  | void | thin .nil => .void
  | function f => .function f.id
  | native f => .native f.name
  | type t => .type t

def keys : List Value → List Key
  | [] => []
  | item :: items => key item :: keys items

end

theorem keys_eq_map (items : List Value) : keys items = items.map key := by
  induction items with
  | nil => rw [keys, List.map_nil]
  | cons item items ih => rw [keys, ih, List.map_cons]

theorem key_list (items : List Value) : (list items).key = .list (items.map key) := by
  rw [key, keys_eq_map]

theorem key_promote (value : Value) : value.promote.key = value.key := by
  cases value with
  | thin literal => cases literal <;> simp [promote, ThinLiteral.value, key]
  | _ => rfl

theorem typeOf_key (value : Value) : value.key.typeOf = value.typeOf := by
  cases value with
  | thin literal => cases literal <;> simp [key, Key.typeOf, typeOf]
  | _ => simp [key, Key.typeOf, typeOf]

/-! ### Equality is equality of keys -/

theorem allEqual_iff {items : List Value}
    (h : ∀ item ∈ items, ∀ other, item.equals other ↔ item.key = other.key) (items' : List Value) :
    allEqual items items' ↔ items.map key = items'.map key := by
  induction items generalizing items' with
  | nil => cases items' <;> simp [allEqual]
  | cons item items ih =>
    cases items' with
    | nil => simp [allEqual]
    | cons item' items' =>
      rw [List.forall_mem_cons] at h
      rw [allEqual, Bool.and_eq_true, h.1, ih h.2, List.map_cons, List.map_cons, List.cons.injEq]

theorem thin_equals_iff (literal : ThinLiteral) (other : Value) :
    literal.equals other ↔ (thin literal).key = other.key := by
  cases literal <;> cases other with
  | thin literal' => cases literal' <;> simp [ThinLiteral.equals, key]
  | _ => simp [ThinLiteral.equals, key]

theorem equals_iff (value other : Value) : value.equals other ↔ value.key = other.key := by
  induction value using list_induction generalizing other with
  | hlist items ih =>
    cases other with
    | list items' => rw [equals, allEqual_iff ih, key_list, key_list, Key.list.injEq]
    | thin literal => rw [equals_thin_right, thin_equals_iff, eq_comm]
    | _ => simp [equals, key]
  | hother value hlist =>
    cases value with
    | list items => exact absurd rfl hlist
    | thin literal => rw [equals_thin_left, thin_equals_iff]
    | _ =>
      cases other with
      | thin literal => rw [equals_thin_right, thin_equals_iff, eq_comm]
      | _ => simp [equals, key]

theorem equals_promoteAll (value : Value) : value.equals value.promoteAll := by
  have hself : value.promoteAll.equals value.promoteAll := (equals_iff _ _).2 rfl
  have hsame := transparent_promoteAll.equals value value.promoteAll
  rw [promoteAll_promoteAll] at hsame
  rwa [← hsame]

/-! ### Promoting somewhere -/

/-- The value is promoted, or one item is that is somewhere inside of it. -/
inductive Promotes : Value → Value → Prop
  | self (value : Value) : Promotes value value.promote
  | item (before after : List Value) {item item' : Value} (h : Promotes item item') :
    Promotes (list (before ++ item :: after)) (list (before ++ item' :: after))

theorem Promotes.key_eq {value value' : Value} (h : value.Promotes value') :
    value'.key = value.key := by
  induction h with
  | self value => exact key_promote value
  | item before after _ ih => simp only [key_list, List.map_append, List.map_cons, ih]

/-! ### Functions -/

/-- The function is the value or is somewhere in it. -/
inductive Holds (f : UserFunction) : Value → Prop
  | self : Holds f (function f)
  | item {items : List Value} {item : Value} (hmem : item ∈ items) (h : Holds f item) :
    Holds f (list items)

/-- A number stands for the same function in both values. -/
def Agrees (value other : Value) : Prop :=
  ∀ f g, value.Holds f → other.Holds g → f.id = g.id → f = g

theorem Agrees.items {items items' : List Value} (h : (list items).Agrees (list items'))
    {item item' : Value} (hmem : item ∈ items) (hmem' : item' ∈ items') : item.Agrees item' :=
  fun f g hf hg => h f g (.item hmem hf) (.item hmem' hg)

theorem typeOf_of_key {value other : Value} (h : value.key = other.key) :
    value.typeOf = other.typeOf := by
  rw [← typeOf_key, h, typeOf_key]

/-- The two natives that have one name. -/
def Namesakes (value other : Value) : Prop :=
  value = native .listLen ∧ other = native .stringLen ∨
    value = native .stringLen ∧ other = native .listLen

theorem native_eq_or_namesakes {f g : Native} (h : f.name = g.name) :
    native f = native g ∨ (native f).Namesakes (native g) := by
  unfold Namesakes
  cases f <;> cases g <;> simp_all [Native.name]

/-- Functions with one key are one and the same, but for the two natives of one name. -/
theorem function_of_key {value other : Value} (hfunction : value.typeOf = .function)
    (hagrees : value.Agrees other) (hkey : value.key = other.key) :
    value = other ∨ value.Namesakes other := by
  obtain ⟨f, rfl⟩ | ⟨f, rfl⟩ := eq_function_of_typeOf hfunction <;>
    obtain ⟨g, rfl⟩ | ⟨g, rfl⟩ := eq_function_of_typeOf (typeOf_of_key hkey ▸ hfunction)
  · rw [key, key, Key.function.injEq] at hkey
    exact .inl (by rw [hagrees f g .self .self hkey])
  · simp [key] at hkey
  · simp [key] at hkey
  · rw [key, key, Key.native.injEq] at hkey
    exact native_eq_or_namesakes hkey

/-! ### Texts -/

/-- Of values that are neither lists nor functions the key leaves nothing open but promotion. -/
theorem promote_eq_of_key {value other : Value} (hlist : value.typeOf ≠ .list)
    (hfunction : value.typeOf ≠ .function) (h : value.key = other.key) :
    value.promote = other.promote := by
  cases value with
  | list items => exact absurd rfl hlist
  | function f | native f => exact absurd rfl hfunction
  | thin literal =>
    cases literal <;> cases other with
    | thin literal' => cases literal' <;> simp_all [key, promote, ThinLiteral.value]
    | _ => simp_all [key, promote, ThinLiteral.value]
  | _ =>
    cases other with
    | thin literal => cases literal <;> simp_all [key, promote, ThinLiteral.value]
    | _ => simp_all [key, promote]

theorem displayItem_of_function {value : Value} (h : value.typeOf = .function) :
    value.displayItem = value.display := by
  obtain ⟨f, rfl⟩ | ⟨f, rfl⟩ := eq_function_of_typeOf h <;> rfl

theorem display_of_function {value other : Value} (hfunction : value.typeOf = .function)
    (hagrees : value.Agrees other) (hkey : value.key = other.key) :
    value.display = other.display := by
  obtain rfl | ⟨rfl, rfl⟩ | ⟨rfl, rfl⟩ := function_of_key hfunction hagrees hkey <;> rfl

theorem map_displayItem_eq {items : List Value}
    (h : ∀ item ∈ items, ∀ other, item.Agrees other → item.key = other.key →
      item.displayItem = other.displayItem) {items' : List Value}
    (hagrees : ∀ item ∈ items, ∀ item' ∈ items', item.Agrees item')
    (hkey : items.map key = items'.map key) :
    items.map displayItem = items'.map displayItem := by
  induction items generalizing items' with
  | nil => rw [List.map_eq_nil_iff.1 hkey.symm]
  | cons item items ih =>
    cases items' with
    | nil => cases hkey
    | cons item' items' =>
      simp only [List.forall_mem_cons] at h hagrees
      rw [List.map_cons, List.map_cons, List.cons.injEq] at hkey
      rw [List.map_cons, List.map_cons, h.1 item' hagrees.1.1 hkey.1,
        ih h.2 (fun item hmem => (hagrees.2 item hmem).2) hkey.2]

theorem displayItem_eq {value other : Value} (hagrees : value.Agrees other)
    (hkey : value.key = other.key) : value.displayItem = other.displayItem := by
  induction value using list_induction generalizing other with
  | hlist items ih =>
    obtain ⟨items', rfl⟩ := eq_list_of_typeOf (typeOf_of_key hkey).symm
    rw [key_list, key_list, Key.list.injEq] at hkey
    have hmap := map_displayItem_eq (fun item hmem _ => ih item hmem)
      (fun item hmem item' hmem' => hagrees.items hmem hmem') hkey
    change (list items).display = (list items').display
    rw [display_list, display_list, hmap]
  | hother value hlist =>
    by_cases hfunction : value.typeOf = .function
    · rw [displayItem_of_function hfunction, display_of_function hfunction hagrees hkey,
        displayItem_of_function (typeOf_of_key hkey ▸ hfunction)]
    · rw [← displayItem_promote, promote_eq_of_key hlist hfunction hkey, displayItem_promote]

theorem display_eq {value other : Value} (hagrees : value.Agrees other)
    (hkey : value.key = other.key) : value.display = other.display := by
  by_cases hlist : value.typeOf = .list
  · obtain ⟨items, rfl⟩ := eq_list_of_typeOf hlist
    obtain ⟨items', rfl⟩ := eq_list_of_typeOf (typeOf_of_key hkey).symm
    exact displayItem_eq hagrees hkey
  · by_cases hfunction : value.typeOf = .function
    · exact display_of_function hfunction hagrees hkey
    · rw [← display_promote, promote_eq_of_key hlist hfunction hkey, display_promote]

/-! ### Places -/

/-- The value at a place inside of lists. -/
def at? : List Nat → Value → Option Value
  | [], value => some value
  | i :: path, list items => (items[i]?).bind (at? path)
  | _ :: _, _ => none

theorem at?_list (i : Nat) (path : List Nat) (items : List Value) :
    (list items).at? (i :: path) = (items[i]?).bind (at? path) :=
  rfl

theorem holds_of_at? {path : List Nat} {value inner : Value} {f : UserFunction}
    (h : value.at? path = some inner) (hf : inner.Holds f) : value.Holds f := by
  induction path generalizing value with
  | nil => exact Option.some.inj h ▸ hf
  | cons i path ih =>
    cases value with
    | list items =>
      obtain ⟨item, hitem, hinner⟩ := Option.bind_eq_some_iff.1 (at?_list i path items ▸ h)
      exact .item (List.mem_of_getElem? hitem) (ih hinner)
    | _ => cases h

/-- Values with one key have values with one key at each place. -/
theorem exists_at?_of_key {path : List Nat} {value other inner : Value}
    (hkey : value.key = other.key) (h : value.at? path = some inner) :
    ∃ inner', other.at? path = some inner' ∧ inner.key = inner'.key := by
  induction path generalizing value other with
  | nil => exact ⟨other, rfl, Option.some.inj h ▸ hkey⟩
  | cons i path ih =>
    cases value with
    | list items =>
      obtain ⟨items', rfl⟩ := eq_list_of_typeOf (typeOf_of_key hkey).symm
      rw [key_list, key_list, Key.list.injEq] at hkey
      obtain ⟨item, hitem, hinner⟩ := Option.bind_eq_some_iff.1 (at?_list i path items ▸ h)
      have hitems : (items.map key)[i]? = (items'.map key)[i]? := by rw [hkey]
      rw [List.getElem?_map, List.getElem?_map, hitem, Option.map_some, eq_comm,
        Option.map_eq_some_iff] at hitems
      obtain ⟨item', hitem', hsame⟩ := hitems
      obtain ⟨inner', hinner', hkey'⟩ := ih hsame.symm hinner
      exact ⟨inner', by rw [at?_list, hitem', Option.bind_some, hinner'], hkey'⟩
    | _ => cases h

/-- Where one of two equal values has a function, at any depth, the other one has the same function,
or else the two have the natives of one name there. -/
theorem exists_function_of_equals {path : List Nat} {value other inner : Value}
    (hagrees : value.Agrees other) (hequals : value.equals other)
    (h : value.at? path = some inner) (hfunction : inner.typeOf = .function) :
    ∃ inner', other.at? path = some inner' ∧ (inner = inner' ∨ inner.Namesakes inner') := by
  obtain ⟨inner', h', hkey⟩ := exists_at?_of_key ((equals_iff _ _).1 hequals) h
  refine ⟨inner', h', function_of_key hfunction (fun f g hf hg => ?_) hkey⟩
  exact hagrees f g (holds_of_at? h hf) (holds_of_at? h' hg)

end Value

end Script

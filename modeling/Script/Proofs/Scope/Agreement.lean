import Script.Proofs.Scope.Assignment

/-!
# The walks outward agree

A look-up, the question whether a name is bound, an assignment and a declaration each walk outward
on their own. What is seen of a name along a chain is said once, and the answer of each walk is read
off it: so a name that one of them finds is found by all of them, and by none that another one
misses.
-/

namespace Script.Arena

variable {a : Arena} {id : ScopeId} {ids : List ScopeId} {name : String}

/-- The value that a scope itself binds a name to. -/
def value? (a : Arena) (name : String) (id : ScopeId) : Option Value :=
  (a.binding? name id).map (·.value)

/-- What is seen of a name along a chain: the type that it is the name of, or else the value that
the nearest scope binds it to. -/
def seen (a : Arena) (name : String) (ids : List ScopeId) : Option Value :=
  ((ValueType.builtin? name).map .type).or (ids.findSome? (a.value? name))

theorem lookupLocal_eq (h : a.isLive id) (name : String) :
    a.lookupLocal id name = .ok (a.value? name id) := by
  obtain ⟨scope, hget, hscope⟩ := scope_of_isLive h
  rw [lookupLocal, hscope, value?, binding?, hget]
  rfl

theorem value?_eq_none : a.value? name id = none ↔ a.binding? name id = none :=
  Option.map_eq_none_iff

theorem seen_eq_none : a.seen name ids = none ↔
    ValueType.builtin? name = none ∧ ∀ i ∈ ids, a.binding? name i = none := by
  rw [seen, Option.or_eq_none_iff, Option.map_eq_none_iff, List.findSome?_eq_none_iff]
  simp only [value?_eq_none]

/-- What is seen of a name that is not built in is its value in the nearest scope that has one. -/
theorem seen_eq_some (h : ValueType.builtin? name = none) {value : Value} :
    a.seen name ids = some value ↔ ∃ nearer target farther, ids = nearer ++ target :: farther ∧
      a.value? name target = some value ∧ ∀ i ∈ nearer, a.value? name i = none := by
  rw [seen, h, Option.map_none, Option.none_or, List.findSome?_eq_some_iff]

namespace Chain

variable (hc : Chain a id ids)

include hc

theorem lookup_eq_seen (name : String) :
    a.lookup id name = (a.seen name ids).elim (.error (.variableNotDeclared name)) .ok := by
  have hvalue : (ids.findSome? (a.binding? name)).map (·.value) = ids.findSome? (a.value? name) :=
    List.map_findSome? ..
  rw [lookup, seen, ← hvalue, hc.find?_eq name (hc.length_le_walkBound hc.nodup)]
  cases ValueType.builtin? name with
  | some t => rfl
  | none => cases ids.findSome? (a.binding? name) <;> rfl

theorem lookup_eq_ok {value : Value} :
    a.lookup id name = .ok value ↔ a.seen name ids = some value := by
  rw [hc.lookup_eq_seen]
  cases a.seen name ids <;> simp

theorem lookup_eq_undeclared {other : String} :
    a.lookup id name = .error (.variableNotDeclared other) ↔
      a.seen name ids = none ∧ other = name := by
  rw [hc.lookup_eq_seen]
  cases a.seen name ids <;> simp [eq_comm]

theorem isBound_outward (name : String) :
    a.isBound id name true = .ok (a.seen name ids).isSome := by
  rw [isBound, seen, if_pos rfl, hc.holdsOutward_eq name (hc.length_le_walkBound hc.nodup)]
  cases ValueType.builtin? name with
  | some t => rfl
  | none => simp [List.isSome_findSome?, value?]

/-- Without going outward only the scope itself is asked. -/
theorem isBound_self (name : String) : a.isBound id name false =
    .ok ((ValueType.builtin? name).isSome || (a.value? name id).isSome) := by
  obtain ⟨⟨bindings, parent⟩, hget, hscope⟩ := scope_of_isLive (hc.isLive_of_mem hc.self_mem)
  have hholds : a.holdsOutward name 1 id = .ok (a.value? name id).isSome := by
    rw [holdsOutward, hscope, value?, binding?, hget, Option.isSome_map]
    change (if Scope.holds ⟨bindings, parent⟩ name then _ else _ : Except Cause Bool) =
      .ok (Scope.holds ⟨bindings, parent⟩ name)
    cases Scope.holds ⟨bindings, parent⟩ name <;> cases parent <;> rfl
  rw [isBound, if_neg Bool.false_ne_true, hholds]
  cases ValueType.builtin? name <;> rfl

/-- An assignment misses a name where a look-up does, whatever is assigned. -/
theorem reassign_eq_undeclared {value : Value} {other : String} :
    a.reassign id name value = .error (.variableNotDeclared other) ↔
      a.seen name ids = none ∧ other = name := by
  rw [seen_eq_none]
  constructor
  · intro h
    have hends := hc.reassign_ends name value
    rw [h] at hends
    cases hends with
    | unbound hnot hunbound =>
      exact ⟨⟨Option.not_isSome_iff_eq_none.1 fun hbuiltin => hnot (.inl hbuiltin), hunbound⟩, rfl⟩
  · rintro ⟨⟨hbuiltin, hunbound⟩, rfl⟩
    exact hc.reassign_unbound hbuiltin hunbound value

/-- A declaration goes through, and warns when it hides what is seen of the name. -/
theorem declare_eq_seen (name : Identifier) (value : Value) (constant : Bool) :
    ∃ b, a.declare id name value constant =
      if (a.seen name.name ids).isSome then
        (some (.shadowing name.name name.line), .ok (.shadowed, b))
      else (none, .ok (.fresh, b)) := by
  obtain ⟨scope, -, hscope⟩ := scope_of_isLive (hc.isLive_of_mem hc.self_mem)
  refine ⟨a.set id (scope.insert name.name ⟨value.promote, constant⟩), ?_⟩
  rw [declare, hc.isBound_outward, bind_of_scope hscope]
  cases a.seen name.name ids <;> rfl

end Chain

/-- Along a chain a name is bound, as far as the walk goes outward, just when a look-up finds it; in
the scope itself, just when it is built in or that scope holds it. An assignment does not find the
name when a look-up does not, whatever is assigned. A declaration always goes through, and gives the
one warning that it hides something just when a look-up would have found the name before. And a
look-up of a name that is not built in gives what the nearest scope that holds it binds it to. -/
theorem walks_agree (hc : Chain a id ids) (name : String) :
    (∃ bound, a.isBound id name true = .ok bound ∧
      (bound ↔ ∃ value, a.lookup id name = .ok value)) ∧
    (∃ bound, a.isBound id name false = .ok bound ∧
      (bound ↔ (ValueType.builtin? name).isSome ∨
        ∃ value, a.lookupLocal id name = .ok (some value))) ∧
    (∀ value other, a.reassign id name value = .error (.variableNotDeclared other) ↔
      a.lookup id name = .error (.variableNotDeclared other)) ∧
    (∀ line value constant, ∃ warning declared b,
      a.declare id ⟨name, line⟩ value constant = (warning, .ok (declared, b)) ∧
      (declared = .shadowed ↔ ∃ value, a.lookup id name = .ok value) ∧
      warning = if declared = .shadowed then some (.shadowing name line) else none) ∧
    (ValueType.builtin? name = none →
      (∀ value, a.lookup id name = .ok value ↔
        ∃ nearer target farther, ids = nearer ++ target :: farther ∧
          (∀ i ∈ nearer, a.lookupLocal i name = .ok none) ∧
          a.lookupLocal target name = .ok (some value)) ∧
      (a.lookup id name = .error (.variableNotDeclared name) ↔
        ∀ i ∈ ids, a.lookupLocal i name = .ok none)) := by
  have hlocal (i : ScopeId) (hmem : i ∈ ids) : a.lookupLocal i name = .ok (a.value? name i) :=
    lookupLocal_eq (hc.isLive_of_mem hmem) name
  have hfound : (a.seen name ids).isSome ↔ ∃ value, a.lookup id name = .ok value := by
    simp only [hc.lookup_eq_ok, Option.isSome_iff_exists]
  refine ⟨⟨_, hc.isBound_outward name, hfound⟩, ⟨_, hc.isBound_self name, ?_⟩,
    fun value other => ?_, fun line value constant => ?_, fun hbuiltin => ⟨fun value => ?_, ?_⟩⟩
  · rw [hlocal id hc.self_mem, Bool.or_eq_true, Option.isSome_iff_exists (x := a.value? name id)]
    simp only [Except.ok.injEq]
  · rw [hc.reassign_eq_undeclared, hc.lookup_eq_undeclared]
  · obtain ⟨b, hdeclare⟩ := hc.declare_eq_seen ⟨name, line⟩ value constant
    rw [hdeclare, ← hfound]
    cases a.seen name ids with
    | none => exact ⟨_, _, b, rfl, by simp, rfl⟩
    | some value => exact ⟨_, _, b, rfl, by simp, rfl⟩
  · rw [hc.lookup_eq_ok, seen_eq_some hbuiltin]
    refine exists_congr fun nearer => exists_congr fun target => exists_congr fun farther =>
      and_congr_right fun heq => ?_
    have hnearer : (∀ i ∈ nearer, a.lookupLocal i name = .ok none) ↔
        ∀ i ∈ nearer, a.value? name i = none :=
      forall₂_congr fun i hmem => by
        rw [hlocal i (heq ▸ List.mem_append_left _ hmem), Except.ok.injEq]
    rw [hnearer, hlocal target (by simp [heq]), Except.ok.injEq, and_comm]
  · rw [hc.lookup_eq_undeclared, seen_eq_none, and_iff_left rfl, and_iff_right hbuiltin]
    exact forall₂_congr fun i hmem => by rw [hlocal i hmem, Except.ok.injEq, value?_eq_none]

/-- The name is a constant of the root scope, a variable of the scope inside of it, and not held by
the innermost scope; another name is held by none. -/
theorem walks_agree_of_hidden :
    let a : Arena := ⟨#[some ⟨[("x", ⟨.boolean true, true⟩)], none⟩,
      some ⟨[("x", ⟨.string "s", false⟩)], some 0⟩, some ⟨[], some 1⟩], []⟩
    Chain a 2 [2, 1, 0] ∧ a.lookup 2 "x" = .ok (.string "s") ∧
      a.reassign 2 "x" (.string "t") ≠ .error (.variableNotDeclared "x") ∧
      a.reassign 2 "y" (.string "t") = .error (.variableNotDeclared "y") := by
  intro a
  have hc : Chain a 2 [2, 1, 0] := .link rfl (.link rfl (.last rfl))
  have hnearer : ∀ i ∈ [2], a.lookupLocal i "x" = .ok none := List.forall_mem_singleton.2 rfl
  have hfound : a.lookup 2 "x" = .ok (.string "s") :=
    (((walks_agree hc "x").2.2.2.2 rfl).1 _).2 ⟨[2], 1, [0], rfl, hnearer, rfl⟩
  refine ⟨hc, hfound, fun hreassign => ?_, ((walks_agree hc "y").2.2.1 _ _).2 rfl⟩
  cases hfound.symm.trans (((walks_agree hc "x").2.2.1 _ _).1 hreassign)

end Script.Arena

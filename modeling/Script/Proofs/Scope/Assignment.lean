import Script.Proofs.Eval.Lockstep
import Script.Proofs.Scope.Visibility

/-!
# Which variable an assignment changes

An assignment walks the whole chain once, and asks two things of it: whether any scope has the name
as a constant, and which scope is the nearest to have it as a variable. A constant forbids the
assignment wherever it is, so the nearest variable counts only on a chain without one; there it is
also the nearest binding of the name, which a look-up finds.
-/

namespace Script.Arena

variable {a b : Arena} {id target : ScopeId} {ids : List ScopeId} {name : String}
  {old value : Value}

/-- Some scope of the chain has the name as a constant. -/
def HasConstant (a : Arena) (name : String) (ids : List ScopeId) : Prop :=
  ∃ id ∈ ids, ∃ value, a.binding? name id = some ⟨value, true⟩

/-- The nearest scope of the chain that has the name as a variable, and the value of it. -/
structure NearestVariable (a : Arena) (name : String) (ids : List ScopeId) (target : ScopeId)
    (old : Value) : Prop where
  binding : a.binding? name target = some ⟨old, false⟩
  nearest : ∃ nearer farther, ids = nearer ++ target :: farther ∧
    ∀ id ∈ nearer, ∀ value, a.binding? name id ≠ some ⟨value, false⟩

namespace NearestVariable

theorem mem (h : a.NearestVariable name ids target old) : target ∈ ids := by
  obtain ⟨nearer, farther, rfl, -⟩ := h.nearest
  exact List.mem_append_right nearer List.mem_cons_self

/-- Without a constant the scopes that are nearer do not hold the name at all. -/
theorem unbound (h : a.NearestVariable name ids target old) (hconstant : ¬a.HasConstant name ids) :
    ∃ nearer farther, ids = nearer ++ target :: farther ∧
      ∀ id ∈ nearer, a.binding? name id = none := by
  obtain ⟨nearer, farther, rfl, hnearer⟩ := h.nearest
  refine ⟨nearer, farther, rfl, fun id hmem => ?_⟩
  rcases hbinding : a.binding? name id with _ | ⟨value, _ | _⟩
  · rfl
  · exact absurd hbinding (hnearer id hmem value)
  · exact absurd ⟨id, List.mem_append_left _ hmem, value, hbinding⟩ hconstant

theorem find?_eq (h : a.NearestVariable name ids target old) (hconstant : ¬a.HasConstant name ids) :
    ids.find? (fun id => (a.binding? name id).isSome) = some target := by
  obtain ⟨nearer, farther, heq, hnearer⟩ := h.unbound hconstant
  refine List.find?_eq_some_iff_append.2 ⟨by rw [h.binding]; rfl, nearer, farther, heq, ?_⟩
  exact fun id hmem => by simp [hnearer id hmem]

/-- A look-up goes to the same variable as the assignment. -/
theorem sees (hc : Chain a id ids) (h : a.NearestVariable name ids target old)
    (hconstant : ¬a.HasConstant name ids) : a.Sees name target id := by
  obtain ⟨nearer, farther, heq, hnearer⟩ := h.unbound hconstant
  clear h hconstant
  induction hc generalizing nearer with
  | last =>
    obtain ⟨rfl, hlast⟩ | ⟨_, -, hnil⟩ := List.cons_eq_append_iff.1 heq
    · cases hlast
      exact .here
    · simp at hnil
  | link hlink _ ih =>
    obtain ⟨rfl, hhead⟩ | ⟨nearer, rfl, hparents⟩ := List.cons_eq_append_iff.1 heq
    · cases hhead
      exact .here
    · obtain ⟨hunbound, hnearer⟩ := List.forall_mem_cons.1 hnearer
      exact .outward hlink hunbound (ih nearer hparents hnearer)

end NearestVariable

/-- A chain on which the name is no constant either has it as a variable or does not hold it. -/
theorem nearestVariable_or_unbound (hconstant : ¬a.HasConstant name ids) :
    (∃ target old, a.NearestVariable name ids target old) ∨
      ∀ id ∈ ids, a.binding? name id = none := by
  cases hfind : ids.find? fun id => (a.binding? name id).isSome with
  | none => exact .inr fun id hmem => by simpa using List.find?_eq_none.1 hfind id hmem
  | some target =>
    obtain ⟨hsome, nearer, farther, heq, hnearer⟩ := List.find?_eq_some_iff_append.1 hfind
    obtain ⟨⟨old, constant⟩, hbinding⟩ := Option.isSome_iff_exists.1 hsome
    cases constant with
    | true =>
      exact absurd ⟨target, heq ▸ List.mem_append_right nearer List.mem_cons_self, old, hbinding⟩
        hconstant
    | false =>
      refine .inl ⟨target, old, hbinding, nearer, farther, heq, fun id hmem value hvariable => ?_⟩
      have hnone := hnearer id hmem
      rw [hvariable] at hnone
      cases hnone

/-! ### The ends of an assignment -/

/-- How an assignment along a chain may end. -/
inductive AssignmentEnds (a : Arena) (ids : List ScopeId) (name : String) (value : Value) :
    Except Cause Arena → Prop
  | constant (h : (ValueType.builtin? name).isSome ∨ a.HasConstant name ids) :
    AssignmentEnds a ids name value (.error (.constReassignment name))
  | unbound (h : ¬((ValueType.builtin? name).isSome ∨ a.HasConstant name ids))
    (hunbound : ∀ id ∈ ids, a.binding? name id = none) :
    AssignmentEnds a ids name value (.error (.variableNotDeclared name))
  | mismatched {target : ScopeId} {old : Value}
    (h : ¬((ValueType.builtin? name).isSome ∨ a.HasConstant name ids))
    (hnearest : a.NearestVariable name ids target old) (htype : value.typeOf ≠ old.typeOf) :
    AssignmentEnds a ids name value (.error (.typeMatch old.typeOf.name value.typeOf.name))
  | assigned {target : ScopeId} {old : Value} {b : Arena}
    (hbuiltin : ValueType.builtin? name = none) (hconstant : ¬a.HasConstant name ids)
    (hnearest : a.NearestVariable name ids target old) (htype : value.typeOf = old.typeOf)
    (hrebound : Rebound a b target name ⟨value.promote, false⟩) :
    AssignmentEnds a ids name value (.ok b)

namespace Chain

variable (hc : Chain a id ids)

include hc

theorem assignmentTarget_of_not_hasConstant (hconstant : ¬a.HasConstant name ids) :
    a.assignmentTarget name a.walkBound none id =
      .ok (ids.find? fun id => (a.binding? name id).isSome) := by
  rw [hc.assignmentTarget_eq name (hc.length_le_walkBound hc.nodup), if_neg, Option.none_or]
  intro hany
  obtain ⟨id, hmem, hsome⟩ := List.any_eq_true.1 hany
  rcases hbinding : a.binding? name id with _ | ⟨value, _ | _⟩
  · simp [hbinding] at hsome
  · simp [hbinding] at hsome
  · exact hconstant ⟨id, hmem, value, hbinding⟩

/-- A built-in name and a constant are refused alike. -/
theorem reassign_constant (h : (ValueType.builtin? name).isSome ∨ a.HasConstant name ids)
    (value : Value) : a.reassign id name value = .error (.constReassignment name) := by
  rw [reassign]
  by_cases hbuiltin : (ValueType.builtin? name).isSome
  · rw [if_pos hbuiltin]
    rfl
  · obtain ⟨i, hmem, old, hbinding⟩ := h.resolve_left hbuiltin
    have hany : ids.any fun id => (a.binding? name id).any (·.constant) :=
      List.any_eq_true.2 ⟨i, hmem, by simp [hbinding]⟩
    rw [if_neg hbuiltin, hc.assignmentTarget_eq name (hc.length_le_walkBound hc.nodup), if_pos hany]
    rfl

theorem reassign_unbound (hbuiltin : ValueType.builtin? name = none)
    (h : ∀ id ∈ ids, a.binding? name id = none) (value : Value) :
    a.reassign id name value = .error (.variableNotDeclared name) := by
  have hconstant : ¬a.HasConstant name ids := fun ⟨id, hmem, value, hbinding⟩ => by
    rw [h id hmem] at hbinding
    cases hbinding
  have hnone : ids.find? (fun id => (a.binding? name id).isSome) = none :=
    List.find?_eq_none.2 fun id hmem => by simp [h id hmem]
  rw [reassign, hbuiltin, hc.assignmentTarget_of_not_hasConstant hconstant, hnone]
  rfl

/-- The nearest variable gets the new value if that is of its type. -/
theorem reassign_variable (hbuiltin : ValueType.builtin? name = none)
    (hconstant : ¬a.HasConstant name ids) (h : a.NearestVariable name ids target old)
    (value : Value) :
    (value.typeOf = old.typeOf ∧ ∃ b, a.reassign id name value = .ok b ∧
        Rebound a b target name ⟨value.promote, false⟩) ∨
      value.typeOf ≠ old.typeOf ∧
        a.reassign id name value = .error (.typeMatch old.typeOf.name value.typeOf.name) := by
  obtain ⟨scope, hscope, hget⟩ := binding?_eq_some.1 h.binding
  rw [reassign, hbuiltin, hc.assignmentTarget_of_not_hasConstant hconstant, h.find?_eq hconstant]
  simp only [Option.isSome_none, Bool.false_eq_true, if_false, Bind.bind, Except.bind, Pure.pure,
    Except.pure, scope_eq_ok.2 hscope, hget]
  by_cases htype : value.typeOf = old.typeOf
  · have hcheck : (DeclaredType.exactly old.typeOf).check value = .ok () :=
      if_pos (beq_iff_eq.2 htype)
    rw [hcheck]
    exact .inl ⟨htype, _, rfl, rebound_set hscope name _⟩
  · have hcheck : (DeclaredType.exactly old.typeOf).check value =
        .error (.typeMatch old.typeOf.name value.typeOf.name) :=
      if_neg fun heq => htype (beq_iff_eq.1 heq)
    rw [hcheck]
    exact .inr ⟨htype, rfl⟩

theorem reassign_ends (name : String) (value : Value) :
    a.AssignmentEnds ids name value (a.reassign id name value) := by
  by_cases h : (ValueType.builtin? name).isSome ∨ a.HasConstant name ids
  · rw [hc.reassign_constant h]
    exact .constant h
  · obtain ⟨hbuiltin, hconstant⟩ := not_or.1 h
    rw [Option.not_isSome_iff_eq_none] at hbuiltin
    obtain ⟨target, old, hnearest⟩ | hunbound := nearestVariable_or_unbound hconstant
    · obtain ⟨htype, b, hok, hrebound⟩ | ⟨htype, herror⟩ :=
        hc.reassign_variable hbuiltin hconstant hnearest value
      · rw [hok]
        exact .assigned hbuiltin hconstant hnearest htype hrebound
      · rw [herror]
        exact .mismatched h hnearest htype
    · rw [hc.reassign_unbound hbuiltin hunbound]
      exact .unbound h hunbound

end Chain

/-- In a run an assignment that fails leaves everything as it was, whatever the arena. -/
theorem toState_of_reassign_error {m n : Machine} {stop : Stop}
    (h : Run.reassign name value m = .error stop n) : n.toState = m.toState := by
  rw [Run.reassign, Run.get_bind, Run.updateArena, Run.get_bind] at h
  cases hreassign : m.arena.reassign m.active name value with
  | error cause =>
    rw [hreassign] at h
    cases h
    rfl
  | ok b =>
    rw [hreassign] at h
    cases h

/-- Along a chain an assignment succeeds when the name is neither built in nor a constant of any
scope, and the nearest scope that has it as a variable has a value of the type of the new one there.
Then this value is replaced by the new one and nothing else is changed, and a look-up finds the new
value. The assignment fails for a built-in name or a constant first, then for a name that is bound
nowhere, then for the types; a failure changes nothing, whatever there is on the chain. -/
theorem reassign_nearest (a : Arena) (id : ScopeId) (name : String) (value : Value) :
    (∀ ids, Chain a id ids →
      ((∃ b, a.reassign id name value = .ok b) ↔
        ValueType.builtin? name = none ∧ ¬a.HasConstant name ids ∧
          ∃ target old, a.NearestVariable name ids target old ∧ value.typeOf = old.typeOf) ∧
      (∀ b, a.reassign id name value = .ok b → ∃ target old,
        a.NearestVariable name ids target old ∧ Rebound a b target name ⟨value.promote, false⟩ ∧
          b.lookup id name = .ok value.promote) ∧
      ∀ cause, a.reassign id name value = .error cause →
        ((ValueType.builtin? name).isSome ∨ a.HasConstant name ids) ∧
            cause = .constReassignment name ∨
          ¬((ValueType.builtin? name).isSome ∨ a.HasConstant name ids) ∧
            ((∀ i ∈ ids, a.binding? name i = none) ∧ cause = .variableNotDeclared name ∨
              ∃ target old, a.NearestVariable name ids target old ∧ value.typeOf ≠ old.typeOf ∧
                cause = .typeMatch old.typeOf.name value.typeOf.name)) ∧
    ∀ m stop n, Run.reassign name value m = .error stop n → n.toState = m.toState := by
  refine ⟨fun ids hc => ?_, fun _ _ _ => toState_of_reassign_error⟩
  have hends := hc.reassign_ends name value
  refine ⟨⟨fun ⟨b, hok⟩ => ?_, ?_⟩, fun b hok => ?_, fun cause herror => ?_⟩
  · rw [hok] at hends
    cases hends with
    | assigned hbuiltin hconstant hnearest htype =>
      exact ⟨hbuiltin, hconstant, _, _, hnearest, htype⟩
  · rintro ⟨hbuiltin, hconstant, target, old, hnearest, htype⟩
    obtain ⟨-, b, hok, -⟩ | ⟨hne, -⟩ := hc.reassign_variable hbuiltin hconstant hnearest value
    · exact ⟨b, hok⟩
    · exact absurd htype hne
  · rw [hok] at hends
    cases hends with
    | assigned hbuiltin hconstant hnearest _ hrebound =>
      obtain ⟨_, htarget, -⟩ := hc.suffix_of_mem hnearest.mem
      exact ⟨_, _, hnearest, hrebound,
        hrebound.lookup_eq htarget hbuiltin (hnearest.sees hc hconstant)⟩
  · rw [herror] at hends
    cases hends with
    | constant h => exact .inl ⟨h, rfl⟩
    | unbound h hunbound => exact .inr ⟨h, .inl ⟨hunbound, rfl⟩⟩
    | mismatched h hnearest htype => exact .inr ⟨h, .inr ⟨_, _, hnearest, htype, rfl⟩⟩

/-- The nearest variable is in the middle scope. The root scope has the name too, and if it is a
constant there, then that forbids the assignment. -/
theorem reassign_nearest_of_outer :
    let root (constant : Bool) : Scope := ⟨[("x", ⟨.boolean true, constant⟩)], none⟩
    let a (constant : Bool) : Arena :=
      ⟨#[some (root constant), some ⟨[("x", ⟨.boolean true, false⟩)], some 0⟩, some ⟨[], some 1⟩],
        []⟩
    Chain (a false) 2 [2, 1, 0] ∧ Chain (a true) 2 [2, 1, 0] ∧
      (∃ b, (a false).reassign 2 "x" (.boolean false) = .ok b) ∧
      ¬∃ b, (a true).reassign 2 "x" (.boolean false) = .ok b := by
  intro root a
  have hc (constant : Bool) : Chain (a constant) 2 [2, 1, 0] :=
    .link rfl (.link rfl (.last rfl))
  refine ⟨hc false, hc true, ((reassign_nearest _ 2 "x" _).1 _ (hc false)).1.2 ?_, fun hok => ?_⟩
  · refine ⟨rfl, ?_, 1, .boolean true, ⟨rfl, [2], [0], rfl, ?_⟩, rfl⟩
    · rintro ⟨i, hmem, value, hbinding⟩
      simp only [List.mem_cons, List.not_mem_nil, or_false] at hmem
      obtain rfl | rfl | rfl := hmem <;> cases hbinding
    · intro i hmem value hbinding
      cases List.mem_singleton.1 hmem
      cases hbinding
  · obtain ⟨-, hconstant, -⟩ := ((reassign_nearest _ 2 "x" _).1 _ (hc true)).1.1 hok
    exact hconstant ⟨0, by simp, .boolean true, rfl⟩

end Script.Arena

import Script.Proofs.Scope.Operations

/-!
# What binding a name changes

Every operation that binds a name changes one binding of one scope. A declaration and a parameter
bind in the scope they are given. An assignment goes to a scope that has the name as a variable, and
keeps the type of its value.
-/

namespace Script

theorem DeclaredType.accepts_of_check {declared : DeclaredType} {value : Value}
    (h : declared.check value = .ok ()) : declared.accepts value := by
  rw [check] at h
  split at h
  · assumption
  · cases h

theorem DeclaredType.typeOf_of_check {t : ValueType} {value : Value}
    (h : (exactly t).check value = .ok ()) : value.typeOf = t :=
  eq_of_beq (accepts_of_check h)

namespace Arena

variable {a b : Arena} {id : ScopeId}

theorem binding?_eq_some {name : String} {binding : Binding} :
    a.binding? name id = some binding ↔ ∃ scope, a.get? id = some scope ∧
      scope.get? name = some binding := by
  rw [binding?, Option.bind_eq_some_iff]

theorem binding?_set {scope : Scope} (h : a.get? id = some scope) (name : String)
    (binding : Binding) (other : String) (otherId : ScopeId) :
    (a.set id (scope.insert name binding)).binding? other otherId =
      if otherId = id ∧ other = name then some binding else a.binding? other otherId := by
  unfold binding?
  rw [get?_set (isLive_iff.2 ⟨scope, h⟩)]
  by_cases hid : otherId = id
  · subst hid
    simp [h, Scope.get?_insert]
  · simp [hid]

theorem binding?_bind {name : String} {value : Value} {constant : Bool}
    (h : a.bind id name value constant = .ok b) (other : String) (otherId : ScopeId) :
    b.binding? other otherId =
      if otherId = id ∧ other = name then some ⟨value.promote, constant⟩
      else a.binding? other otherId := by
  obtain ⟨scope, hscope, rfl⟩ := set_of_bind h
  exact binding?_set hscope name _ other otherId

/-- A new scope has no bindings. -/
theorem binding?_of_create (ht : a.Tidy) {parent : Option ScopeId} {name : String}
    {binding : Binding} (h : (a.create parent).2.binding? name id = some binding) :
    a.binding? name id = some binding := by
  unfold binding? at h ⊢
  rw [get?_create ht] at h
  split at h
  · cases h
  · exact h

theorem binding?_of_release {released : ScopeId} {name : String} {binding : Binding}
    (h : (a.release released).binding? name id = some binding) :
    a.binding? name id = some binding := by
  unfold binding? at h ⊢
  rw [get?_release] at h
  split at h
  · cases h
  · exact h

/-- What a walk finds is bound in some scope. -/
theorem exists_binding?_of_find? {name : String} {bound : Nat} {binding : Binding}
    (h : a.find? name bound id = .ok (some binding)) :
    ∃ other, a.binding? name other = some binding := by
  induction bound generalizing id with
  | zero => cases h
  | succ bound ih =>
    rw [find?] at h
    cases hscope : a.scope id with
    | error cause => simp [hscope, Bind.bind, Except.bind] at h
    | ok scope =>
      simp only [hscope, Bind.bind, Except.bind] at h
      split at h
      · next hget =>
        cases h
        exact ⟨id, binding?_eq_some.2 ⟨scope, scope_eq_ok.1 hscope, hget⟩⟩
      · exact ih h
      · cases h

/-- A look-up gives the type that the name stands for, or a value that is bound in some scope. -/
theorem value_of_lookup {name : String} {value : Value} (h : a.lookup id name = .ok value) :
    (∃ t, value = .type t) ∨
      ∃ other binding, a.binding? name other = some binding ∧ value = binding.value := by
  unfold Arena.lookup at h
  split at h
  · next t _ => exact .inl ⟨t, (Except.ok.inj h).symm⟩
  · cases hfind : a.find? name a.walkBound id with
    | error cause => simp [hfind, Bind.bind, Except.bind] at h
    | ok found =>
      cases found with
      | none => simp [hfind, Bind.bind, Except.bind] at h
      | some binding =>
        simp only [hfind, Bind.bind, Except.bind, Except.ok.injEq] at h
        obtain ⟨other, hbinding⟩ := exists_binding?_of_find? hfind
        exact .inr ⟨other, binding, hbinding, h.symm⟩

/-- A live scope takes any binding, with the value promoted. -/
theorem bind_of_scope {scope : Scope} (h : a.scope id = .ok scope) (name : String) (value : Value)
    (constant : Bool) : a.bind id name value constant =
      .ok (a.set id (scope.insert name ⟨value.promote, constant⟩)) := by
  rw [Arena.bind, h]
  rfl

/-- A name can be declared in every scope from which a chain leads outward. -/
theorem Chain.declare_ne_error {ids : List ScopeId} (hc : Chain a id ids) (hn : ids.Nodup)
    (name : Identifier) (value : Value) (constant : Bool) (cause : Cause) :
    (a.declare id name value constant).2 ≠ .error cause := by
  obtain ⟨scope, -, hscope⟩ := scope_of_isLive (hc.isLive_of_mem hc.self_mem)
  have hbound : ∃ bound, a.isBound id name.name true = .ok bound := by
    rw [isBound, if_pos rfl, hc.holdsOutward_eq name.name (hc.length_le_walkBound hn)]
    split <;> exact ⟨_, rfl⟩
  obtain ⟨bound, hbound⟩ := hbound
  intro herror
  rw [declare, hbound, bind_of_scope hscope] at herror
  cases bound <;> cases herror

/-- The search remembers a scope that has the name as a variable, and goes on outward. -/
theorem assignmentTarget_succ {name : String} {bound : Nat} {nearest found : Option ScopeId}
    (h : a.assignmentTarget name (bound + 1) nearest id = .ok found) :
    ∃ nearest', (nearest' = nearest ∨ nearest' = nearest.or (some id) ∧
        ∃ value, a.binding? name id = some ⟨value, false⟩) ∧
      (found = nearest' ∨ ∃ parent, a.assignmentTarget name bound nearest' parent = .ok found) := by
  rw [assignmentTarget] at h
  cases hscope : a.scope id with
  | error cause => simp [hscope, Bind.bind, Except.bind] at h
  | ok scope =>
    rcases hbinding : scope.get? name with _ | ⟨value, _ | _⟩
    · refine ⟨nearest, .inl rfl, ?_⟩
      cases hparent : scope.parent with
      | none =>
        simp only [hscope, hbinding, hparent, Bind.bind, Except.bind, Except.ok.injEq] at h
        exact .inl h.symm
      | some parent =>
        simp only [hscope, hbinding, hparent, Bind.bind, Except.bind] at h
        exact .inr ⟨parent, h⟩
    · have hvariable : a.binding? name id = some ⟨value, false⟩ :=
        binding?_eq_some.2 ⟨scope, scope_eq_ok.1 hscope, hbinding⟩
      refine ⟨nearest.or (some id), .inr ⟨rfl, value, hvariable⟩, ?_⟩
      cases hparent : scope.parent with
      | none =>
        simp only [hscope, hbinding, hparent, Bind.bind, Except.bind, Except.ok.injEq] at h
        exact .inl h.symm
      | some parent =>
        simp only [hscope, hbinding, hparent, Bind.bind, Except.bind] at h
        exact .inr ⟨parent, h⟩
    · simp [hscope, hbinding, Bind.bind, Except.bind] at h

/-- An assignment goes to a variable. -/
theorem binding?_of_assignmentTarget {name : String} {bound : Nat} {nearest : Option ScopeId}
    {target : ScopeId} (h : a.assignmentTarget name bound nearest id = .ok (some target)) :
    nearest = some target ∨ ∃ value, a.binding? name target = some ⟨value, false⟩ := by
  induction bound generalizing nearest id with
  | zero => exact .inl (Except.ok.inj h)
  | succ bound ih =>
    obtain ⟨nearest', hnearest, hfound⟩ := assignmentTarget_succ h
    have hrest : nearest' = some target ∨
        ∃ value, a.binding? name target = some ⟨value, false⟩ := by
      obtain heq | ⟨parent, hparent⟩ := hfound
      · exact .inl heq.symm
      · exact ih hparent
    obtain rfl | ⟨rfl, value, hvariable⟩ := hnearest
    · exact hrest
    · obtain heq | hbound := hrest
      · cases nearest with
        | some other => exact .inl heq
        | none =>
          cases Option.some.inj heq
          exact .inr ⟨value, hvariable⟩
      · exact .inr hbound

theorem binding?_reassign {name : String} {value : Value} (h : a.reassign id name value = .ok b) :
    ∃ target old, a.binding? name target = some ⟨old, false⟩ ∧ value.typeOf = old.typeOf ∧
      ∀ other otherId, b.binding? other otherId =
        if otherId = target ∧ other = name then some ⟨value.promote, false⟩
        else a.binding? other otherId := by
  obtain ⟨target, scope, htarget, hscope, hcheck, rfl⟩ := set_of_reassign h
  obtain ⟨old, hold⟩ := (binding?_of_assignmentTarget htarget).resolve_left nofun
  obtain ⟨scope', hscope', hbinding⟩ := binding?_eq_some.1 hold
  cases hscope.symm.trans hscope'
  exact ⟨target, old, hold, DeclaredType.typeOf_of_check (hcheck _ hbinding),
    fun other otherId => binding?_set hscope name _ other otherId⟩

end Arena

end Script

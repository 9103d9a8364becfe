import Script.Proofs.Harmless
import Script.Proofs.Scope.Chain

/-!
# Operations on a linked arena

At a scope whose chain is live no operation of an arena refuses for a fault of the interpreter: it
never comes to a scope that is not live, and its walk ends with the chain. Binding a name, in
whatever way, leaves the shape of the arena as it is, that is which scopes are live and which of
them are around which.
-/

namespace Script.Arena

variable {a b : Arena} {id : ScopeId} {ids : List ScopeId}

/-- From every live scope of a linked arena a chain leads outward. -/
theorem Linked.chain (h : a.Linked id) {other : ScopeId} (hlive : a.isLive other) :
    ∃ ids, Chain a other ids ∧ ids.Nodup := by
  obtain ⟨ids, hc, hn, -, hall⟩ := h
  obtain ⟨rest, hrest, hsuffix⟩ := hc.suffix_of_mem ((hall other).1 hlive)
  exact ⟨rest, hrest, hn.sublist hsuffix.sublist⟩

theorem Linked.isLive_active (h : a.Linked id) : a.isLive id := by
  obtain ⟨ids, hc, -, -, hall⟩ := h
  exact (hall id).2 hc.self_mem

theorem Linked.isLive_root (h : a.Linked id) : a.isLive root := by
  obtain ⟨ids, -, -, hlast, hall⟩ := h
  exact (hall root).2 (List.mem_of_getLast? hlast)

/-! ### Refusals -/

theorem scope_of_isLive (h : a.isLive id) :
    ∃ scope, a.get? id = some scope ∧ a.scope id = .ok scope := by
  obtain ⟨scope, hscope⟩ := isLive_iff.1 h
  exact ⟨scope, hscope, by simp [Arena.scope, hscope]⟩

theorem harmless_scope (h : a.isLive id) : Harmless (a.scope id) := by
  obtain ⟨scope, -, hscope⟩ := scope_of_isLive h
  exact hscope ▸ .ok _

theorem harmless_parent (h : a.isLive id) : Harmless (a.parent id) :=
  .bind (harmless_scope h) fun _ => .ok _

theorem harmless_lookupLocal (h : a.isLive id) (name : String) :
    Harmless (a.lookupLocal id name) :=
  .bind (harmless_scope h) fun _ => .ok _

theorem harmless_bind (h : a.isLive id) (name : String) (value : Value) (constant : Bool) :
    Harmless (a.bind id name value constant) :=
  .bind (harmless_scope h) fun _ => .ok _

namespace Chain

theorem harmless_lookup (hc : Chain a id ids) (hn : ids.Nodup) (name : String) :
    Harmless (a.lookup id name) := by
  rw [lookup]
  split
  · exact .ok _
  · rw [hc.find?_eq name (hc.length_le_walkBound hn)]
    refine .bind (.ok _) fun binding => ?_
    split
    · exact .ok _
    · exact .error nofun

theorem harmless_isBound (hc : Chain a id ids) (hn : ids.Nodup) (name : String)
    (recursive : Bool) : Harmless (a.isBound id name recursive) := by
  rw [isBound]
  split
  · exact .ok _
  · cases recursive with
    | true =>
      rw [if_pos rfl, hc.holdsOutward_eq name (hc.length_le_walkBound hn)]
      exact .ok _
    | false =>
      refine .bind (harmless_scope (hc.isLive_of_mem hc.self_mem)) fun scope => ?_
      split
      · exact .ok _
      · split
        · exact .ok _
        · exact .ok _

theorem harmless_declare (hc : Chain a id ids) (hn : ids.Nodup) (name : Identifier)
    (value : Value) (constant : Bool) : Harmless (a.declare id name value constant).2 := by
  have hbind := harmless_bind (hc.isLive_of_mem hc.self_mem) name.name value constant
  rw [declare]
  split
  · next cause hbound => exact .error (hc.harmless_isBound hn _ _ cause hbound)
  · exact hbind.map _
  · exact hbind.map _

theorem mem_of_assignmentTarget (hc : Chain a id ids) (hn : ids.Nodup) {name : String}
    {target : ScopeId} (h : a.assignmentTarget name a.walkBound none id = .ok (some target)) :
    target ∈ ids := by
  rw [hc.assignmentTarget_eq name (hc.length_le_walkBound hn)] at h
  split at h
  · cases h
  · exact List.mem_of_find?_eq_some (by simpa using h)

theorem harmless_reassign (hc : Chain a id ids) (hn : ids.Nodup) (name : String)
    (value : Value) : Harmless (a.reassign id name value) := by
  have htarget : Harmless (a.assignmentTarget name a.walkBound none id) := by
    rw [hc.assignmentTarget_eq name (hc.length_le_walkBound hn)]
    split
    · exact .error nofun
    · exact .ok _
  rw [reassign]
  split
  · exact .error nofun
  · refine .bind_of_ok htarget fun target ht => ?_
    cases target with
    | none => exact .error nofun
    | some target =>
      have hlive := hc.isLive_of_mem (hc.mem_of_assignmentTarget hn ht)
      refine .bind (harmless_scope hlive) fun scope => ?_
      split
      · exact .bind (DeclaredType.harmless_check _ _) fun _ => .ok _
      · exact .ok _

end Chain

/-- No operation at a scope refuses for a fault of the interpreter. Every walk from there goes along
one and the same chain, and ends with it however many more steps it might take. -/
structure Answers (a : Arena) (id : ScopeId) : Prop where
  parent : Harmless (a.parent id)
  lookup : ∀ name, Harmless (a.lookup id name)
  lookupLocal : ∀ name, Harmless (a.lookupLocal id name)
  isBound : ∀ name recursive, Harmless (a.isBound id name recursive)
  bind : ∀ name value constant, Harmless (a.bind id name value constant)
  bindParameter : ∀ name value, Harmless (a.bindParameter id name value)
  declare : ∀ name value constant, Harmless (a.declare id name value constant).2
  reassign : ∀ name value, Harmless (a.reassign id name value)
  walk : ∃ ids, Chain a id ids ∧ ids.length ≤ a.walkBound ∧
    ∀ name bound, ids.length ≤ bound →
      a.find? name bound id = .ok (ids.findSome? (a.binding? name)) ∧
      a.holdsOutward name bound id = .ok (ids.any fun id => (a.binding? name id).isSome) ∧
      ∀ nearest, a.assignmentTarget name bound nearest id =
        if ids.any fun id => (a.binding? name id).any (·.constant) then
          .error (.constReassignment name)
        else .ok (nearest.or (ids.find? fun id => (a.binding? name id).isSome))

theorem Linked.answers (h : a.Linked id) {other : ScopeId} (hlive : a.isLive other) :
    a.Answers other := by
  obtain ⟨ids, hc, hn⟩ := h.chain hlive
  exact {
    parent := harmless_parent hlive
    lookup := hc.harmless_lookup hn
    lookupLocal := harmless_lookupLocal hlive
    isBound := hc.harmless_isBound hn
    bind := harmless_bind hlive
    bindParameter := fun name value => harmless_bind hlive name value false
    declare := hc.harmless_declare hn
    reassign := hc.harmless_reassign hn
    walk := ⟨ids, hc, hc.length_le_walkBound hn, fun name _ hbound =>
      ⟨hc.find?_eq name hbound, hc.holdsOutward_eq name hbound,
        hc.assignmentTarget_eq name hbound⟩⟩ }

/-! ### Changes -/

theorem scope_eq_ok {scope : Scope} : a.scope id = .ok scope ↔ a.get? id = some scope := by
  unfold Arena.scope
  cases a.get? id <;> simp

/-- Binding a name changes the one scope that it is bound in. -/
theorem set_of_bind {name : String} {value : Value} {constant : Bool}
    (h : a.bind id name value constant = .ok b) :
    ∃ scope, a.get? id = some scope ∧ b = a.set id (scope.insert name ⟨value.promote, constant⟩) := by
  unfold Arena.bind at h
  cases hscope : a.scope id with
  | error cause => simp [hscope, Bind.bind, Except.bind] at h
  | ok scope =>
    simp only [hscope, Bind.bind, Except.bind, Pure.pure, Except.pure, Except.ok.injEq] at h
    exact ⟨scope, scope_eq_ok.1 hscope, h.symm⟩

/-- An assignment changes the one scope that it goes to. If that holds the name, the new value has
the type of the old one. -/
theorem set_of_reassign {name : String} {value : Value} (h : a.reassign id name value = .ok b) :
    ∃ target scope, a.assignmentTarget name a.walkBound none id = .ok (some target) ∧
      a.get? target = some scope ∧
      (∀ binding, scope.get? name = some binding →
        (DeclaredType.exactly binding.value.typeOf).check value = .ok ()) ∧
      b = a.set target (scope.insert name ⟨value.promote, false⟩) := by
  unfold reassign at h
  split at h
  · cases h
  · rcases htarget : a.assignmentTarget name a.walkBound none id with cause | (_ | target)
    · simp [htarget, Bind.bind, Except.bind] at h
    · simp [htarget, Bind.bind, Except.bind] at h
    · cases hscope : a.scope target with
      | error cause => simp [htarget, hscope, Bind.bind, Except.bind] at h
      | ok scope =>
        refine ⟨target, scope, rfl, scope_eq_ok.1 hscope, ?_⟩
        simp only [htarget, hscope, Bind.bind, Except.bind, Pure.pure, Except.pure] at h
        cases hget : scope.get? name with
        | none =>
          simp only [hget, Except.ok.injEq] at h
          exact ⟨nofun, h.symm⟩
        | some binding =>
          simp only [hget] at h
          cases hcheck : (DeclaredType.exactly binding.value.typeOf).check value with
          | error cause => simp [hcheck] at h
          | ok _ =>
            simp only [hcheck, Except.ok.injEq] at h
            refine ⟨fun other hother => ?_, h.symm⟩
            obtain rfl := Option.some.inj hother
            exact hcheck

/-! ### The shape of an arena -/

/-- The same scopes are live, each inside the same scope, and the free list is still in order. -/
structure SameShape (a b : Arena) : Prop where
  link? : ∀ id, b.link? id = a.link? id
  tidy : a.Tidy → b.Tidy

theorem SameShape.refl (a : Arena) : SameShape a a := ⟨fun _ => rfl, fun h => h⟩

theorem SameShape.trans {c : Arena} (h : SameShape a b) (h' : SameShape b c) : SameShape a c :=
  ⟨fun id => (h'.link? id).trans (h.link? id), fun ha => h'.tidy (h.tidy ha)⟩

theorem sameShape_set {scope : Scope} (h : a.get? id = some scope) (name : String)
    (binding : Binding) : SameShape a (a.set id (scope.insert name binding)) := by
  have hlive : a.isLive id := isLive_iff.2 ⟨scope, h⟩
  refine ⟨?_, fun ha => ha.set hlive _⟩
  intro other
  unfold link?
  rw [get?_set hlive]
  split
  · next hid => simp [hid, h]
  · rfl

theorem sameShape_bind {name : String} {value : Value} {constant : Bool}
    (h : a.bind id name value constant = .ok b) : SameShape a b := by
  obtain ⟨scope, hscope, rfl⟩ := set_of_bind h
  exact sameShape_set hscope _ _

theorem bind_of_declare {name : Identifier} {value : Value} {constant : Bool} {declared : Declared}
    (h : (a.declare id name value constant).2 = .ok (declared, b)) :
    a.bind id name.name value constant = .ok b := by
  have hmap {d : Declared} (h : (a.bind id name.name value constant).map (d, ·) =
      .ok (declared, b)) : a.bind id name.name value constant = .ok b := by
    cases hbind : a.bind id name.name value constant with
    | error cause => simp [hbind, Except.map] at h
    | ok c =>
      simp only [hbind, Except.map, Except.ok.injEq, Prod.mk.injEq] at h
      rw [h.2]
  unfold declare at h
  split at h
  · cases h
  · exact hmap h
  · exact hmap h

theorem sameShape_declare {name : Identifier} {value : Value} {constant : Bool}
    {declared : Declared} (h : (a.declare id name value constant).2 = .ok (declared, b)) :
    SameShape a b :=
  sameShape_bind (bind_of_declare h)

theorem sameShape_reassign {name : String} {value : Value} (h : a.reassign id name value = .ok b) :
    SameShape a b := by
  obtain ⟨target, scope, -, hscope, -, rfl⟩ := set_of_reassign h
  exact sameShape_set hscope _ _

/-! ### Entering and leaving a scope -/

theorem link?_create (ht : a.Tidy) (parent : Option ScopeId) (other : ScopeId) :
    (a.create parent).2.link? other =
      if other = (a.create parent).1 then some parent else a.link? other := by
  rw [link?]
  rw [get?_create ht]
  split <;> rfl

theorem Chain.create (ht : a.Tidy) (hc : Chain a id ids) (parent : Option ScopeId) :
    Chain (a.create parent).2 id ids := by
  have hne (other : ScopeId) (h : (a.link? other).isSome) : other ≠ (a.create parent).1 := by
    rintro rfl
    simp [link?, get?_create_self ht] at h
  induction hc with
  | last hlast => exact .last (by rw [link?_create ht, if_neg (hne _ (by simp [hlast])), hlast])
  | link hlink _ ih =>
    exact .link (by rw [link?_create ht, if_neg (hne _ (by simp [hlink])), hlink]) ih

/-- A new scope inside the active one goes to the front of the chain. -/
theorem Linked.create (ht : a.Tidy) (h : a.Linked id) :
    (a.create (some id)).2.Linked (a.create (some id)).1 := by
  obtain ⟨ids, hc, hn, hlast, hlive⟩ := h
  have hnew : (a.create (some id)).1 ∉ ids := fun hmem => by
    have := (hlive _).2 hmem
    simp [isLive, get?_create_self ht] at this
  refine ⟨(a.create (some id)).1 :: ids, .link ?_ (hc.create ht _), List.nodup_cons.2 ⟨hnew, hn⟩,
    ?_, fun other => ?_⟩
  · rw [link?_create ht, if_pos rfl]
  · rw [List.getLast?_cons_of_ne_nil (List.ne_nil_of_mem hc.self_mem), hlast]
  · rw [isLive_eq_isSome_link?, link?_create ht, List.mem_cons, ← hlive, isLive_eq_isSome_link?]
    split
    · next hid => simp [hid]
    · next hid => simp [hid]

/-- Releasing the scope that was created leads back, whatever happened to the bindings meanwhile. -/
theorem link?_release_create (ht : a.Tidy) {parent : Option ScopeId}
    (h : ∀ id, b.link? id = (a.create parent).2.link? id) (other : ScopeId) :
    (b.release (a.create parent).1).link? other = a.link? other := by
  have hb := h other
  rw [link?_create ht] at hb
  unfold link? at hb ⊢
  rw [get?_release]
  split
  · next hid => simp [hid, get?_create_self ht]
  · next hid => rw [hb, if_neg hid]

theorem Linked.congr (h : ∀ id, b.link? id = a.link? id) (ha : a.Linked id) : b.Linked id := by
  obtain ⟨ids, hc, hn, hlast, hlive⟩ := ha
  exact ⟨ids, hc.congr h, hn, hlast, fun other => by rw [isLive_congr h, hlive]⟩

private theorem countP_isSome_congr {xs ys : List (Option α)}
    (h : ∀ i : Nat, xs[i]?.join.isSome = ys[i]?.join.isSome) :
    xs.countP (·.isSome) = ys.countP (·.isSome) := by
  induction xs generalizing ys with
  | nil =>
    refine (List.countP_eq_zero.2 fun y hmem => ?_).symm
    obtain ⟨i, hi⟩ := List.mem_iff_getElem?.1 hmem
    have hy := h i
    rw [hi] at hy
    simpa using hy.symm
  | cons x xs ih =>
    cases ys with
    | nil =>
      apply List.countP_eq_zero.2
      intro y hmem
      obtain ⟨i, hi⟩ := List.mem_iff_getElem?.1 hmem
      have hy := h i
      rw [hi] at hy
      simpa using hy
    | cons y ys =>
      have hhead : x.isSome = y.isSome := by simpa using h 0
      rw [List.countP_cons, List.countP_cons, ih fun i => by simpa using h (i + 1), hhead]

/-- Arenas of one shape have equally many live scopes. -/
theorem SameShape.liveCount_eq (h : SameShape a b) : b.liveCount = a.liveCount := by
  unfold liveCount
  rw [← Array.countP_toList, ← Array.countP_toList]
  apply countP_isSome_congr
  intro id
  rw [Array.getElem?_toList, Array.getElem?_toList]
  exact isLive_congr h.link? id

theorem linked_withRoot : withRoot.Linked root := by
  refine ⟨[root], .last rfl, by simp, rfl, ?_⟩
  intro id
  cases id with
  | zero => simp [root, isLive, withRoot, empty, create, get?]
  | succ id => simp [root, isLive, withRoot, empty, create, get?]

end Script.Arena

import Script.Proofs.Scope.Bindings

/-!
# Where a new binding is seen

A look-up walks outward and takes the first scope that holds the name, so what is bound in a scope
is seen from there and from all scopes inside of it, as far as none in between holds the name.
Everywhere else, and for every other name, a look-up goes the way it went before. The names of the
types are asked for before any scope: to bind one is allowed, but no look-up ever comes to it.
-/

namespace Script.Arena

variable {a b : Arena} {id other : ScopeId} {ids : List ScopeId} {name : String}

/-- Walking outward from a scope, one comes to the scope `id` before any other that holds the
name. -/
inductive Sees (a : Arena) (name : String) (id : ScopeId) : ScopeId → Prop
  | here : Sees a name id id
  | outward {inner parent : ScopeId} (hlink : a.link? inner = some (some parent))
    (hunbound : a.binding? name inner = none) (hparent : Sees a name id parent) :
    Sees a name id inner

/-- One step of a look-up asks for the link of a scope and for its binding of the name alone. -/
theorem find?_succ (a : Arena) (name : String) (bound : Nat) (id : ScopeId) :
    a.find? name (bound + 1) id =
      match a.link? id, a.binding? name id with
      | none, _ => .error (notLive id)
      | some _, some binding => .ok (some binding)
      | some (some parent), none => a.find? name bound parent
      | some none, none => .ok none := by
  rw [find?, scope, link?, binding?]
  cases a.get? id with
  | none => rfl
  | some scope =>
    obtain ⟨bindings, parent⟩ := scope
    cases hget : Scope.get? ⟨bindings, parent⟩ name <;> cases parent <;>
      simp [Bind.bind, Except.bind, hget]

namespace Sees

/-- The chain of the scope that is seen goes on behind the way to it. -/
theorem chain (h : a.Sees name id other) (hc : Chain a id ids) :
    ∃ inner, Chain a other (inner ++ ids) ∧ ∀ i ∈ inner, a.binding? name i = none := by
  induction h with
  | here => exact ⟨[], hc, List.forall_mem_nil _⟩
  | @outward i _ hlink hunbound _ ih =>
    obtain ⟨inner, hchain, hinner⟩ := ih
    exact ⟨i :: inner, .link hlink hchain, List.forall_mem_cons.2 ⟨hunbound, hinner⟩⟩

end Sees

/-! ### Rebinding a name -/

/-- A scope has a name bound anew, and that is all that is different. -/
structure Rebound (a b : Arena) (id : ScopeId) (name : String) (binding : Binding) : Prop where
  size : b.slots.size = a.slots.size
  free : b.free = a.free
  link? : ∀ other, b.link? other = a.link? other
  binding? : ∀ name' other, b.binding? name' other =
    if other = id ∧ name' = name then some binding else a.binding? name' other

theorem rebound_set {scope : Scope} (h : a.get? id = some scope) (name : String)
    (binding : Binding) : Rebound a (a.set id (scope.insert name binding)) id name binding where
  size := Array.size_setIfInBounds ..
  free := rfl
  link? := (sameShape_set h name binding).link?
  binding? := binding?_set h name binding

theorem rebound_bind {value : Value} {constant : Bool} (h : a.bind id name value constant = .ok b) :
    Rebound a b id name ⟨value.promote, constant⟩ := by
  obtain ⟨scope, hscope, rfl⟩ := set_of_bind h
  exact rebound_set hscope name _

namespace Rebound

variable {binding : Binding} (hb : Rebound a b id name binding)

include hb

theorem lookupLocal_eq : b.lookupLocal id name = .ok (some binding.value) := by
  have hbinding : b.binding? name id = some binding := by rw [hb.binding?, if_pos ⟨rfl, rfl⟩]
  obtain ⟨scope, hscope, hget⟩ := binding?_eq_some.1 hbinding
  rw [lookupLocal, scope_eq_ok.2 hscope]
  change Except.ok ((scope.get? name).map (·.value)) = _
  rw [hget]
  rfl

/-- From where the scope is seen a look-up finds the new binding. -/
theorem lookup_eq (hc : Chain a id ids) (hbuiltin : ValueType.builtin? name = none)
    (h : a.Sees name id other) : b.lookup other name = .ok binding.value := by
  obtain ⟨inner, hchain, hinner⟩ := h.chain hc
  have hcb : Chain b other (inner ++ ids) := hchain.congr hb.link?
  obtain ⟨farther, rfl⟩ : ∃ farther, ids = id :: farther := by cases hc <;> exact ⟨_, rfl⟩
  have hfind : (inner ++ id :: farther).findSome? (b.binding? name) = some binding := by
    -- A chain comes to a scope only once, so those before it are as they were.
    have hnone : inner.findSome? (b.binding? name) = none := by
      refine List.findSome?_eq_none_iff.2 fun i hmem => ?_
      have hne : i ≠ id := by
        rintro rfl
        exact (List.nodup_append.1 hchain.nodup).2.2 i hmem i List.mem_cons_self rfl
      rw [hb.binding?, if_neg fun h => hne h.1, hinner i hmem]
    rw [List.findSome?_append, hnone, Option.none_or, List.findSome?_cons, hb.binding?,
      if_pos ⟨rfl, rfl⟩]
  rw [lookup, hbuiltin, hcb.find?_eq name (hcb.length_le_walkBound hcb.nodup), hfind]
  rfl

/-- From anywhere else a walk goes as before, whether it ends or not. -/
theorem find?_eq {name' : String} (h : ¬(name' = name ∧ a.Sees name id other)) (bound : Nat) :
    b.find? name' bound other = a.find? name' bound other := by
  induction bound generalizing other with
  | zero => rfl
  | succ bound ih =>
    have hsame : b.binding? name' other = a.binding? name' other := by
      rw [hb.binding?, if_neg]
      rintro ⟨rfl, rfl⟩
      exact h ⟨rfl, .here⟩
    rw [find?_succ, find?_succ, hsame, hb.link?]
    rcases hlink : a.link? other with _ | _ | parent
    · rfl
    · cases a.binding? name' other <;> rfl
    · cases hunbound : a.binding? name' other with
      | some binding => rfl
      | none =>
        refine ih fun hsees => h ⟨hsees.1, ?_⟩
        obtain ⟨rfl, hparent⟩ := hsees
        exact .outward hlink hunbound hparent

theorem lookup_eq_of_not_sees {name' : String} (h : ¬(name' = name ∧ a.Sees name id other)) :
    b.lookup other name' = a.lookup other name' := by
  rw [lookup, lookup, walkBound, walkBound, hb.size, hb.find?_eq h]

end Rebound

/-- What was just declared, or bound to a parameter, is found again: the scope holds it, and a
look-up gives it from that scope and from every scope that sees it, unless its name is built in. All
other look-ups, those of other names or from other scopes and those of built-in names, give what
they gave before. -/
theorem lookup_declared {x : Identifier} {value : Value} {constant : Bool} (hc : Chain a id ids)
    (h : (∃ declared, (a.declare id x value constant).2 = .ok (declared, b)) ∨
      a.bindParameter id x.name value = .ok b) :
    b.lookupLocal id x.name = .ok (some value.promote) ∧
    (ValueType.builtin? x.name = none → ∀ other, a.Sees x.name id other →
      b.lookup other x.name = .ok value.promote) ∧
    ∀ other name, (name ≠ x.name ∨ ¬a.Sees x.name id other ∨ (ValueType.builtin? name).isSome) →
      b.lookup other name = a.lookup other name := by
  obtain ⟨constant, hb⟩ : ∃ constant, Rebound a b id x.name ⟨value.promote, constant⟩ := by
    obtain ⟨declared, hdeclare⟩ | hparameter := h
    · exact ⟨constant, rebound_bind (bind_of_declare hdeclare)⟩
    · exact ⟨false, rebound_bind hparameter⟩
  refine ⟨hb.lookupLocal_eq, fun hbuiltin other => hb.lookup_eq hc hbuiltin,
    fun other name hother => ?_⟩
  obtain hne | hsees | hbuiltin := hother
  · exact hb.lookup_eq_of_not_sees fun heq => hne heq.1
  · exact hb.lookup_eq_of_not_sees fun heq => hsees heq.2
  · obtain ⟨t, ht⟩ := Option.isSome_iff_exists.1 hbuiltin
    rw [lookup, lookup, ht]

/-- A name that the inner scope hides from the scope around it. -/
theorem lookup_declared_of_inner :
    let a : Arena :=
      ⟨#[some ⟨[("x", ⟨.boolean true, true⟩)], none⟩, some ⟨[], some 0⟩, some ⟨[], some 1⟩], []⟩
    let (_, result) := a.declare 1 ⟨"x", 2⟩ (.thin (.string "s")) false
    ∃ b, result = .ok (.shadowed, b) ∧ b.lookup 2 "x" = .ok (.string "s") ∧
      b.lookup 0 "x" = .ok (.boolean true) := by
  intro a
  have hc : Chain a 1 [1, 0] := .link rfl (.last rfl)
  obtain ⟨-, hseen, hunseen⟩ := lookup_declared (x := ⟨"x", 2⟩) hc
    (.inl ⟨.shadowed,
      show (a.declare 1 ⟨"x", 2⟩ (.thin (.string "s")) false).2 = .ok (_, _) from rfl⟩)
  refine ⟨_, rfl, hseen rfl 2 (.outward rfl rfl .here), ?_⟩
  refine (hunseen 0 "x" (.inr (.inl fun hsees => ?_))).trans rfl
  cases hsees with
  | outward hlink => cases hlink

/-- The name of a type, declared in the root scope, is still the type in every look-up. -/
theorem lookup_declared_builtin :
    let (_, result) := withRoot.declare root ⟨"Integer", 1⟩ (.boolean true) false
    ∃ b, result = .ok (.shadowed, b) ∧ b.lookup root "Integer" = .ok (.type .integer) ∧
      b.lookup root "Integer" ≠ .ok (.boolean true) :=
  ⟨_, rfl, rfl, nofun⟩

end Script.Arena

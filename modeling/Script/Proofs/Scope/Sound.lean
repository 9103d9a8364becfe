import Mathlib.Data.List.Nodup
import Script.Proofs.Scope.Bindings
import Script.Proofs.Scope.Recycling
import Script.Proofs.Value.Promotion

/-!
# Arenas stay in order

Whatever an arena is asked, it stays in order: also when a scope is released twice or before the
scopes inside of it, and when a request names a scope that is not live or never was. The free
numbers are those of the dead slots. The bindings of a scope are two mappings, one of its variables
and one of its constants, and no name is in both; no value in them is thin.

An assignment writes to the variables of a scope only. It can, since it was refused if the name is a
constant there: the two mappings stay apart because of that.
-/

namespace Script

theorem Value.promote_ne_thin (value : Value) (literal : ThinLiteral) :
    value.promote ≠ .thin literal := by
  cases value with
  | thin other => cases other <;> nofun
  | _ => nofun

/-! ### The two mappings of a scope -/

namespace Scope

variable {s : Scope} {name : String} {value old : Value} {constant : Bool}

/-- The constants of a scope, or its variables, with their values. -/
def mapping (s : Scope) (constant : Bool) : List (String × Value) :=
  (s.bindings.filter fun entry => entry.2.constant = constant).map fun entry =>
    (entry.1, entry.2.value)

/-- The names of the constants of a scope, or of its variables. -/
def names (s : Scope) (constant : Bool) : List String := (s.mapping constant).map Prod.fst

theorem mem_mapping : (name, value) ∈ s.mapping constant ↔ (name, ⟨value, constant⟩) ∈ s.bindings := by
  simp only [mapping, List.mem_map, List.mem_filter, decide_eq_true_eq, Prod.mk.injEq]
  constructor
  · rintro ⟨⟨other, binding⟩, ⟨hmem, rfl⟩, rfl, rfl⟩
    exact hmem
  · intro hmem
    exact ⟨_, ⟨hmem, rfl⟩, rfl, rfl⟩

theorem mem_mapping_of_get? (h : s.get? name = some ⟨value, constant⟩) :
    (name, value) ∈ s.mapping constant := by
  obtain ⟨before, rest, heq, -⟩ := List.lookup_eq_some_iff.1 h
  exact mem_mapping.2 (heq ▸ List.mem_append_right before List.mem_cons_self)

/-- Binding a name puts it into one mapping and takes it out of the other. -/
theorem mapping_insert (s : Scope) (name : String) (value : Value) (constant other : Bool) :
    (s.insert name ⟨value, constant⟩).mapping other =
      (if constant = other then [(name, value)] else []) ++
        (s.mapping other).filter fun entry => entry.1 ≠ name := by
  have hrest : ((s.bindings.filter fun entry => entry.1 ≠ name).filter fun entry =>
      entry.2.constant = other) = (s.bindings.filter fun entry =>
        entry.2.constant = other).filter fun entry => entry.1 ≠ name := List.filter_comm ..
  simp only [mapping, insert, List.filter_cons, hrest, List.filter_map, Function.comp_def]
  by_cases h : constant = other <;> simp [h]

theorem names_insert (s : Scope) (name : String) (value : Value) (constant other : Bool) :
    (s.insert name ⟨value, constant⟩).names other =
      (if constant = other then [name] else []) ++ (s.names other).filter (· ≠ name) := by
  rw [names, mapping_insert, List.map_append, names, List.filter_map]
  split <;> rfl

/-- Each mapping has a name once, no name is in both, and nothing in them is thin. -/
structure Sound (s : Scope) : Prop where
  nodup : ∀ constant, (s.names constant).Nodup
  separate : ∀ name, name ∈ s.names true → name ∉ s.names false
  promoted : ∀ constant, ∀ entry ∈ s.mapping constant, ∀ literal, entry.2 ≠ .thin literal

theorem sound_empty (parent : Option ScopeId) : (empty parent).Sound where
  nodup _ := List.nodup_nil
  separate _ hmem := nomatch hmem
  promoted _ _ hmem := nomatch hmem

namespace Sound

theorem insert (h : s.Sound) (name : String) (value : Value) (constant : Bool) :
    (s.insert name ⟨value.promote, constant⟩).Sound where
  nodup other := by
    have hrest := (h.nodup other).filter (· ≠ name)
    rw [names_insert]
    split
    · exact List.nodup_cons.2 ⟨by simp, hrest⟩
    · exact hrest
  separate other htrue hfalse := by
    rw [names_insert, List.mem_append, List.mem_filter] at htrue hfalse
    have hseparate := h.separate other
    cases constant <;> grind
  promoted other entry hmem literal := by
    rw [mapping_insert, List.mem_append, List.mem_filter] at hmem
    obtain hmem | hmem := hmem
    · split at hmem
      · rw [List.mem_singleton.1 hmem]
        exact value.promote_ne_thin literal
      · cases hmem
    · exact h.promoted other entry hmem.1 literal

/-- What a scope binds a name to is what its mappings hold. -/
theorem get?_eq_some_iff (h : s.Sound) :
    s.get? name = some ⟨value, constant⟩ ↔ (name, value) ∈ s.mapping constant := by
  refine ⟨mem_mapping_of_get?, fun hmem => ?_⟩
  have hsome : (s.bindings.lookup name).isSome :=
    List.lookup_isSome_iff.2 ⟨_, mem_mapping.1 hmem, beq_self_eq_true name⟩
  obtain ⟨⟨other, constant'⟩, hget⟩ := Option.isSome_iff_exists.1 hsome
  have hmem' : (name, other) ∈ s.mapping constant' := mem_mapping_of_get? hget
  have hname : name ∈ s.names constant := List.mem_map_of_mem hmem
  have hname' : name ∈ s.names constant' := List.mem_map_of_mem hmem'
  obtain rfl : constant' = constant := by
    have hseparate := h.separate name
    cases constant <;> cases constant' <;> grind
  have hentry := List.inj_on_of_nodup_map (h.nodup constant') hmem' hmem rfl
  rw [get?, hget, (Prod.mk.inj hentry).2]

/-- Giving a variable a new value leaves the constants as they are. -/
theorem constants_assign (h : s.Sound) (hold : s.get? name = some ⟨old, false⟩) (value : Value) :
    (s.insert name ⟨value, false⟩).mapping true = s.mapping true := by
  have hvariable : name ∈ s.names false := List.mem_map_of_mem (mem_mapping_of_get? hold)
  have hne : ∀ entry ∈ s.mapping true, decide (entry.1 ≠ name) = true := by
    intro entry hmem
    refine decide_eq_true ?_
    rintro rfl
    exact h.separate _ (List.mem_map_of_mem hmem) hvariable
  rw [mapping_insert, if_neg Bool.false_ne_true, List.nil_append, List.filter_eq_self.2 hne]

end Sound

end Scope

namespace Arena

variable {a b : Arena} {id : ScopeId}

/-! ### Live and dead slots -/

/-- A slot is live or its number is free. -/
theorem Tidy.liveCount_add_length_free (h : a.Tidy) :
    a.liveCount + a.free.length = a.slots.size := by
  have hfree : a.free.Perm ((List.range a.slots.size).filter fun id => !a.isLive id) := by
    refine (List.perm_ext_iff_of_nodup h.nodup (List.nodup_range.filter _)).2 fun id => ?_
    simp [h.mem_free, isLive]
  have hslots : a.slots.toList = (List.range a.slots.size).map a.get? := by
    refine List.ext_getElem (by simp) fun id hid _ => ?_
    simp [get?, Array.length_toList] at hid ⊢
    simp [hid]
  have hlive : a.liveCount = (List.range a.slots.size).countP a.isLive := by
    rw [liveCount, ← Array.countP_toList, hslots, List.countP_map]
    rfl
  have hsplit : (List.range a.slots.size).length = _ := List.length_eq_countP_add_countP a.isLive
  simp only [Bool.not_eq_true, Bool.decide_eq_false, List.length_range] at hsplit
  rw [hlive, hfree.length_eq, ← List.countP_eq_length_filter, ← hsplit]

/-- A new scope gets a slot of its own when all slots are live, and only then. -/
theorem Tidy.size_create (h : a.Tidy) (outer : Option ScopeId) :
    (a.create outer).2.slots.size = a.slots.size ∨
      (a.create outer).2.slots.size = a.slots.size + 1 ∧ ∀ id < a.slots.size, a.isLive id := by
  cases hfree : a.free with
  | nil =>
    refine .inr ⟨by simp [Arena.create, hfree], fun id hlt => ?_⟩
    have hmem := h.mem_free id
    simp only [hfree, List.not_mem_nil, false_iff, not_and] at hmem
    exact Option.isSome_iff_ne_none.2 (hmem hlt)
  | cons id free =>
    exact .inl (by simp [Arena.create, hfree])

/-! ### What a request does -/

/-- What a request may make of what is in a slot. -/
inductive Change (old : Option Scope) : Scope → Prop
  | kept {scope : Scope} (h : old = some scope) : Change old scope
  | created (outer : Option ScopeId) : Change old (.empty outer)
  | bound {scope : Scope} (h : old = some scope) (name : String) (value : Value) (constant : Bool) :
    Change old (scope.insert name ⟨value.promote, constant⟩)

theorem change_set {scope : Scope} (hscope : a.get? id = some scope) (name : String) (value : Value)
    (constant : Bool) {other : ScopeId} {new : Scope}
    (h : (a.set id (scope.insert name ⟨value.promote, constant⟩)).get? other = some new) :
    Change (a.get? other) new := by
  rw [get?_set (isLive_iff.2 ⟨scope, hscope⟩)] at h
  split at h
  · next hother =>
    obtain rfl := Option.some.inj h
    exact .bound (hother ▸ hscope) name value constant
  · exact .kept h

theorem change_attempt {result : Except Cause Arena} {new : Scope}
    (hresult : ∀ b, result = .ok b → b.get? id = some new → Change (a.get? id) new)
    (h : (a.attempt result).2.get? id = some new) : Change (a.get? id) new := by
  cases result with
  | ok b => exact hresult b rfl h
  | error cause => exact .kept h

/-- After a request a slot has the scope it had, a new one, or the one it had with a name bound to a
promoted value. -/
theorem change_serve (ht : a.Tidy) (request : Request) {new : Scope}
    (h : (request.serve Arena.create a).2.get? id = some new) : Change (a.get? id) new := by
  cases request with
  | create outer =>
    rw [Request.serve, get?_create ht] at h
    split at h
    · obtain rfl := Option.some.inj h
      exact .created outer
    · exact .kept h
  | release released =>
    rw [Request.serve, get?_release] at h
    split at h
    · cases h
    · exact .kept h
  | declare scope name value constant =>
    rw [Request.serve] at h
    rcases hdeclare : a.declare scope name value constant with ⟨warning, cause | ⟨declared, b⟩⟩
    · rw [hdeclare] at h
      exact .kept h
    · rw [hdeclare] at h
      have hbind := bind_of_declare (congrArg Prod.snd hdeclare)
      obtain ⟨s, hs, rfl⟩ := set_of_bind hbind
      exact change_set hs name.name value constant h
  | bindParameter scope name value =>
    refine change_attempt (fun b hbind hb => ?_) h
    obtain ⟨s, hs, rfl⟩ := set_of_bind hbind
    exact change_set hs name value false hb
  | reassign scope name value =>
    refine change_attempt (fun b hreassign hb => ?_) h
    obtain ⟨target, s, -, hs, -, rfl⟩ := set_of_reassign hreassign
    exact change_set hs name value false hb
  | _ => exact .kept h

theorem Tidy.serve (h : a.Tidy) (request : Request) : (request.serve Arena.create a).2.Tidy := by
  cases request with
  | create outer => exact h.create outer
  | release id => exact h.release id
  | declare id name value constant =>
    exact (sameShape_attemptDeclare a id name value constant).tidy h
  | bindParameter id name value => exact (sameShape_attempt fun b hb => sameShape_bind hb).tidy h
  | reassign id name value => exact (sameShape_attempt fun b hb => sameShape_reassign hb).tidy h
  | _ => exact h

/-- Binding a name puts it into one mapping of the scope and takes it out of the other. -/
theorem writes_of_bind {name : String} {value : Value} {constant : Bool}
    (h : a.bind id name value constant = .ok b) : ∃ s s', a.get? id = some s ∧ b = a.set id s' ∧
      b.get? id = some s' ∧
      s'.mapping constant = (name, value.promote) :: (s.mapping constant).filter (·.1 ≠ name) ∧
      s'.mapping (!constant) = (s.mapping (!constant)).filter (·.1 ≠ name) := by
  obtain ⟨s, hs, rfl⟩ := set_of_bind h
  refine ⟨s, _, hs, rfl, ?_, ?_, ?_⟩
  · rw [get?_set (isLive_iff.2 ⟨s, hs⟩), if_pos rfl]
  · rw [Scope.mapping_insert, if_pos rfl]
    rfl
  · rw [Scope.mapping_insert, if_neg (Bool.not_ne_self constant).symm]
    rfl

/-! ### Sequences of requests -/

/-- An arena in order, down to the scopes in it. -/
structure InOrder (a : Arena) : Prop where
  tidy : a.Tidy
  scopes : ∀ id scope, a.get? id = some scope → scope.Sound

namespace InOrder

theorem serve (h : a.InOrder) (request : Request) : (request.serve Arena.create a).2.InOrder where
  tidy := h.tidy.serve request
  scopes id scope hscope := by
    cases change_serve h.tidy request hscope with
    | kept hold => exact h.scopes id _ hold
    | created outer => exact Scope.sound_empty outer
    | bound hold name value constant => exact (h.scopes id _ hold).insert name value constant

theorem serveAll (h : a.InOrder) (requests : List Request) : (a.serveAll requests).InOrder := by
  induction requests generalizing a with
  | nil => exact h
  | cons request requests ih => exact ih (h.serve request)

/-- What a scope binds a name to is in the one of its mappings that says whether it is constant. -/
theorem binding?_eq_some_iff (h : a.InOrder) {name : String} {value : Value} {constant : Bool} :
    a.binding? name id = some ⟨value, constant⟩ ↔
      ∃ scope, a.get? id = some scope ∧ (name, value) ∈ scope.mapping constant := by
  rw [binding?_eq_some]
  refine exists_congr fun scope => and_congr_right fun hscope => ?_
  exact (h.scopes id scope hscope).get?_eq_some_iff

/-- An assignment replaces the value of one variable, and leaves all constants as they are. -/
theorem writes_of_reassign (h : a.InOrder) {name : String} {value : Value}
    (hreassign : a.reassign id name value = .ok b) : ∃ target s s', a.get? target = some s ∧
      name ∈ s.names false ∧ b = a.set target s' ∧ b.get? target = some s' ∧
      s'.mapping false = (name, value.promote) :: (s.mapping false).filter (·.1 ≠ name) ∧
      s'.mapping true = s.mapping true := by
  obtain ⟨target, s, htarget, hs, -, rfl⟩ := set_of_reassign hreassign
  obtain ⟨old, hold⟩ := (binding?_of_assignmentTarget htarget).resolve_left nofun
  obtain ⟨s', hs', hget⟩ := binding?_eq_some.1 hold
  obtain rfl := Option.some.inj (hs.symm.trans hs')
  refine ⟨target, s, _, hs, List.mem_map_of_mem (Scope.mem_mapping_of_get? hget), rfl, ?_, ?_, ?_⟩
  · rw [get?_set (isLive_iff.2 ⟨s, hs⟩), if_pos rfl]
  · rw [Scope.mapping_insert, if_pos rfl]
    rfl
  · exact (h.scopes target s hs).constants_assign hget value.promote

end InOrder

/-- What is true of an arena whatever it was asked. -/
structure Sound (a : Arena) : Prop where
  /-- The free numbers are those of the dead slots, each once. -/
  tidy : a.Tidy
  count : a.liveCount + a.free.length = a.slots.size
  /-- A new scope never takes the place of a live one. -/
  fresh : ∀ outer, ¬a.isLive (a.create outer).1
  /-- A slot is added only when all slots are live. -/
  grows : ∀ outer, (a.create outer).2.slots.size = a.slots.size ∨
    (a.create outer).2.slots.size = a.slots.size + 1 ∧ ∀ id < a.slots.size, a.isLive id
  /-- No name is both a variable and a constant of a scope. -/
  separate : ∀ id scope, a.get? id = some scope →
    ∀ name, ¬(name ∈ scope.names true ∧ name ∈ scope.names false)
  promoted : ∀ id scope, a.get? id = some scope →
    ∀ constant, ∀ entry ∈ scope.mapping constant, ∀ literal, entry.2 ≠ .thin literal
  /-- Look-ups find what is in the mappings. -/
  bindings : ∀ id name value constant, a.binding? name id = some ⟨value, constant⟩ ↔
    ∃ scope, a.get? id = some scope ∧ (name, value) ∈ scope.mapping constant
  /-- Binding a name puts it into one mapping and takes it out of the other. -/
  binds : ∀ id name value constant b, a.bind id name value constant = .ok b →
    ∃ s s', a.get? id = some s ∧ b = a.set id s' ∧ b.get? id = some s' ∧
      s'.mapping constant = (name, value.promote) :: (s.mapping constant).filter (·.1 ≠ name) ∧
      s'.mapping (!constant) = (s.mapping (!constant)).filter (·.1 ≠ name)
  /-- An assignment writes to the variables alone. -/
  writes : ∀ id name value b, a.reassign id name value = .ok b →
    ∃ target s s', a.get? target = some s ∧ name ∈ s.names false ∧ b = a.set target s' ∧
      b.get? target = some s' ∧
      s'.mapping false = (name, value.promote) :: (s.mapping false).filter (·.1 ≠ name) ∧
      s'.mapping true = s.mapping true

theorem inOrder_empty : empty.InOrder where
  tidy := tidy_empty
  scopes id scope h := by simp at h

/-- An arena that was made empty is sound after any sequence of requests, with any arguments. -/
theorem serveAll_sound (requests : List Request) : (empty.serveAll requests).Sound := by
  have h : (empty.serveAll requests).InOrder := inOrder_empty.serveAll requests
  exact {
    tidy := h.tidy
    count := h.tidy.liveCount_add_length_free
    fresh := fun outer => by simp [isLive, get?_create_self h.tidy]
    grows := h.tidy.size_create
    separate := fun id scope hscope name hboth =>
      (h.scopes id scope hscope).separate name hboth.1 hboth.2
    promoted := fun id scope hscope => (h.scopes id scope hscope).promoted
    bindings := fun _ _ _ _ => h.binding?_eq_some_iff
    binds := fun _ _ _ _ _ => writes_of_bind
    writes := fun _ _ _ _ => h.writes_of_reassign }

example : (empty.serveAll [.create none, .create (some 0), .release 0, .release 0]).free = [0] := rfl

end Arena

end Script

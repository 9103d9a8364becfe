import Script.Value

/-!
# Scopes

A scope holds the names bound in one place, each with its value and whether it is constant, and
knows the scope around it. A name has one binding in a scope: binding it again replaces the old one.
-/

namespace Script

/-- A scope's number in the arena that holds it. -/
abbrev ScopeId := Nat

structure Binding where
  value : Value
  constant : Bool
  deriving Inhabited

structure Scope where
  bindings : List (String × Binding)
  parent : Option ScopeId
  deriving Inhabited

namespace Scope

def empty (parent : Option ScopeId) : Scope := ⟨[], parent⟩

def get? (s : Scope) (name : String) : Option Binding :=
  s.bindings.lookup name

def holds (s : Scope) (name : String) : Bool :=
  (s.get? name).isSome

def insert (s : Scope) (name : String) (binding : Binding) : Scope :=
  { s with bindings := (name, binding) :: s.bindings.filter (·.1 ≠ name) }

@[simp]
theorem get?_empty (parent : Option ScopeId) (name : String) : (empty parent).get? name = none :=
  rfl

private theorem lookup_filter_ne (bindings : List (String × Binding)) {name other : String}
    (h : other ≠ name) :
    (bindings.filter (·.1 ≠ name)).lookup other = bindings.lookup other := by
  induction bindings with
  | nil => rfl
  | cons entry rest ih =>
    obtain ⟨key, binding⟩ := entry
    by_cases hkey : key = name
    · subst hkey
      have : (other == key) = false := by simpa using h
      simpa [List.filter_cons, List.lookup_cons, this] using ih
    · by_cases hother : other = key
      · simp [hkey, hother]
      · have : (other == key) = false := by simpa using hother
        simpa [List.filter_cons, hkey, List.lookup_cons, this] using ih

theorem get?_insert (s : Scope) (name other : String) (binding : Binding) :
    (s.insert name binding).get? other = if other = name then some binding else s.get? other := by
  unfold get? insert
  by_cases h : other = name
  · simp [h]
  · have : (other == name) = false := by simpa using h
    simp only [List.lookup_cons, this, h, if_false]
    exact lookup_filter_ne s.bindings h

@[simp]
theorem parent_insert (s : Scope) (name : String) (binding : Binding) :
    (s.insert name binding).parent = s.parent :=
  rfl

end Scope

end Script

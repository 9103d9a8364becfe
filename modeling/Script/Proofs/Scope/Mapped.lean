import Script.Proofs.Value.Promotion
import Script.Scope.Arena

/-!
# Arenas with mapped values

The operations of an arena go along with any transparent map of the values that are bound in it:
they find the same bindings, refuse the same and warn of the same, and only the values are mapped.
-/

namespace Script

theorem lookup_map_snd (entries : List (String × α)) (f : α → β) (name : String) :
    (entries.map (Prod.map id f)).lookup name = (entries.lookup name).map f := by
  induction entries with
  | nil => rfl
  | cons entry entries ih =>
    obtain ⟨key, value⟩ := entry
    simp only [List.map_cons, Prod.map, id, List.lookup_cons]
    cases name == key with
    | true => rfl
    | false => exact ih

def Binding.map (φ : Value → Value) (binding : Binding) : Binding :=
  { binding with value := φ binding.value }

namespace Scope

variable (φ : Value → Value) (s : Scope)

def map : Scope :=
  { s with bindings := s.bindings.map (Prod.map id (Binding.map φ)) }

theorem get?_map (name : String) : (s.map φ).get? name = (s.get? name).map (Binding.map φ) :=
  lookup_map_snd s.bindings (Binding.map φ) name

theorem holds_map (name : String) : (s.map φ).holds name = s.holds name := by
  rw [holds, holds, get?_map, Option.isSome_map]

theorem map_id : s.map id = s := by
  have hbinding : Binding.map id = id := rfl
  rw [map, hbinding, Prod.map_id, List.map_id]

/-- Promoting twice is promoting once. -/
theorem map_promoteAll :
    (s.map Value.promoteAll).map Value.promoteAll = s.map Value.promoteAll := by
  simp only [map, List.map_map]
  congr 2
  funext entry
  simp only [Function.comp, Prod.map, id, Binding.map, Value.promoteAll_promoteAll]

theorem insert_map (name : String) (binding : Binding) :
    (s.map φ).insert name (binding.map φ) = (s.insert name binding).map φ := by
  simp only [insert, map, List.filter_map, List.map_cons]
  rfl

end Scope

namespace Arena

variable (φ : Value → Value) (a : Arena)

def map : Arena :=
  { a with slots := a.slots.map (Option.map (Scope.map φ)) }

theorem map_id : a.map id = a := by
  have hscope : Scope.map id = id := funext Scope.map_id
  rw [map, hscope, Option.map_id, Array.map_id]

theorem get?_map (id : ScopeId) : (a.map φ).get? id = (a.get? id).map (Scope.map φ) := by
  rw [get?, get?, map, Array.getElem?_map, Option.join_map_eq_map_join]

theorem withRoot_map : withRoot.map φ = withRoot := by
  simp [withRoot, create, map, empty, Scope.map, Scope.empty]

theorem isLive_map (id : ScopeId) : (a.map φ).isLive id = a.isLive id := by
  rw [isLive, isLive, get?_map, Option.isSome_map]

theorem scope_map (id : ScopeId) : (a.map φ).scope id = (a.scope id).map (Scope.map φ) := by
  rw [scope, scope, get?_map]
  cases a.get? id <;> rfl

theorem walkBound_map : (a.map φ).walkBound = a.walkBound := by
  rw [walkBound, walkBound, map, Array.size_map]

theorem set_map (id : ScopeId) (scope : Scope) :
    (a.map φ).set id (scope.map φ) = (a.set id scope).map φ := by
  simp only [set, map, Array.map_setIfInBounds, Option.map_some]

theorem create_map (parent : Option ScopeId) :
    (a.map φ).create parent = ((a.create parent).1, (a.create parent).2.map φ) := by
  unfold create
  cases hfree : a.free with
  | nil => simp [map, hfree, Scope.map, Scope.empty]
  | cons id free => simp [map, hfree, Scope.map, Scope.empty]

theorem release_map (id : ScopeId) : (a.map φ).release id = (a.release id).map φ := by
  rw [release, release, isLive_map]
  split
  · simp only [map, Array.map_setIfInBounds, Option.map_none]
  · rfl

/-! ### Walks -/

theorem find?_map (name : String) (bound : Nat) (id : ScopeId) :
    (a.map φ).find? name bound id = (a.find? name bound id).map (Option.map (Binding.map φ)) := by
  induction bound generalizing id with
  | zero => rfl
  | succ bound ih =>
    rw [find?, find?, scope_map]
    cases a.scope id with
    | error cause => rfl
    | ok scope =>
      simp only [Except.map, Bind.bind, Except.bind, Scope.get?_map]
      cases hget : scope.get? name with
      | some binding => rfl
      | none =>
        cases hparent : scope.parent with
        | none =>
          simp only [Scope.map, hparent]
          rfl
        | some parent =>
          simp only [Scope.map, hparent]
          exact ih parent

theorem holdsOutward_map (name : String) (bound : Nat) (id : ScopeId) :
    (a.map φ).holdsOutward name bound id = a.holdsOutward name bound id := by
  induction bound generalizing id with
  | zero => rfl
  | succ bound ih =>
    rw [holdsOutward, holdsOutward, scope_map]
    cases a.scope id with
    | error cause => rfl
    | ok scope =>
      simp only [Except.map, Bind.bind, Except.bind, Scope.holds_map, ih]
      rfl

theorem assignmentTarget_map (name : String) (bound : Nat) (nearest : Option ScopeId)
    (id : ScopeId) :
    (a.map φ).assignmentTarget name bound nearest id =
      a.assignmentTarget name bound nearest id := by
  induction bound generalizing nearest id with
  | zero => rfl
  | succ bound ih =>
    rw [assignmentTarget, assignmentTarget, scope_map]
    cases a.scope id with
    | error cause => rfl
    | ok scope =>
      simp only [Except.map, Bind.bind, Except.bind, Scope.get?_map, ih]
      rcases scope.get? name with _ | ⟨value, _ | _⟩ <;> rfl

theorem isBound_map (id : ScopeId) (name : String) (recursive : Bool) :
    (a.map φ).isBound id name recursive = a.isBound id name recursive := by
  rw [isBound, isBound, walkBound_map, holdsOutward_map]

theorem lookupLocal_map (id : ScopeId) (name : String) :
    (a.map φ).lookupLocal id name = (a.lookupLocal id name).map (Option.map φ) := by
  rw [lookupLocal, lookupLocal, scope_map]
  cases a.scope id with
  | error cause => rfl
  | ok scope =>
    change Except.ok (((scope.map φ).get? name).map (·.value)) = _
    rw [Scope.get?_map]
    cases hget : scope.get? name <;>
      simp [Bind.bind, Except.bind, Pure.pure, Except.pure, Except.map, hget, Binding.map]

section

variable {ρ : Nat → Nat} {φ} {δ : Displacement} (hφ : Transparent ρ φ δ)

include hφ

theorem lookup_map (id : ScopeId) (name : String) :
    (a.map φ).lookup id name = (a.lookup id name).map φ := by
  rw [lookup, lookup, walkBound_map, find?_map]
  cases ValueType.builtin? name with
  | some t => simp [Except.map, hφ.type]
  | none =>
    rcases a.find? name a.walkBound id with cause | (_ | binding) <;> rfl

/-! ### Binding names -/

theorem bind_map (id : ScopeId) (name : String) (value : Value) (constant : Bool) :
    (a.map φ).bind id name (φ value) constant =
      (a.bind id name value constant).map (Arena.map φ) := by
  rw [Arena.bind, Arena.bind, scope_map]
  cases a.scope id with
  | error cause => rfl
  | ok scope =>
    change Except.ok ((a.map φ).set id ((scope.map φ).insert name ⟨(φ value).promote, constant⟩)) =
      Except.ok ((a.set id (scope.insert name ⟨value.promote, constant⟩)).map φ)
    rw [← set_map, ← Scope.insert_map, hφ.promote]
    rfl

theorem declare_map (id : ScopeId) (name : Identifier) (value : Value) (constant : Bool) :
    (a.map φ).declare id (name.move δ) (φ value) constant =
      ((a.declare id name value constant).1.map (Warning.move δ),
        (a.declare id name value constant).2.map fun declared =>
          (declared.1, declared.2.map φ)) := by
  have hname : (name.move δ).name = name.name := rfl
  unfold declare
  rw [hname, isBound_map, bind_map a hφ]
  rcases a.isBound id name.name true with cause | (_ | _)
  · rfl
  · cases a.bind id name.name value constant <;> rfl
  · cases a.bind id name.name value constant <;> rfl

theorem reassign_map (id : ScopeId) (name : String) (value : Value) :
    (a.map φ).reassign id name (φ value) = (a.reassign id name value).map (Arena.map φ) := by
  have hset (target : ScopeId) (scope : Scope) :
      (a.map φ).set target ((scope.map φ).insert name ⟨(φ value).promote, false⟩) =
        (a.set target (scope.insert name ⟨value.promote, false⟩)).map φ := by
    rw [← set_map, ← Scope.insert_map, hφ.promote]
    rfl
  rw [reassign, reassign, assignmentTarget_map, walkBound_map]
  split
  · rfl
  · rcases a.assignmentTarget name a.walkBound none id with cause | (_ | target)
    · rfl
    · rfl
    · simp only [Bind.bind, Except.bind, scope_map]
      cases a.scope target with
      | error cause => rfl
      | ok scope =>
        simp only [Except.map, Scope.get?_map]
        cases scope.get? name with
        | none => exact congrArg Except.ok (hset target scope)
        | some binding =>
          simp only [Option.map_some, Binding.map, hφ.typeOf, hφ.check]
          cases (DeclaredType.exactly binding.value.typeOf).check value with
          | error cause => rfl
          | ok _ => exact congrArg Except.ok (hset target scope)

end

end Arena

end Script

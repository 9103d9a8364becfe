import Script.Scope
import Script.Warning

/-!
# Arenas

All scopes of one module live in an arena. A scope is created inside another and released when what
it was made for is over; its number then goes to the next scope created, last released first.

Names are resolved by walking outward from a scope. A walk takes at most one step for every slot of
the arena and one more: the scopes of a chain that does not run in a circle are all different, so
such a walk has seen them all, and on a circle it has seen every scope there is. Coming to a scope
that was released is an error of its own. The names of the types come before every binding.
-/

namespace Script

structure Arena where
  slots : Array (Option Scope)
  /-- The released numbers, the last one first. -/
  free : List ScopeId
  deriving Inhabited

/-- Whether a declaration hid a binding that was visible before. -/
inductive Declared where
  | fresh
  | shadowed
  deriving DecidableEq, Inhabited

namespace Arena

def empty : Arena := ⟨#[], []⟩

def get? (a : Arena) (id : ScopeId) : Option Scope :=
  a.slots[id]?.join

def isLive (a : Arena) (id : ScopeId) : Bool :=
  (a.get? id).isSome

def liveCount (a : Arena) : Nat :=
  a.slots.countP (·.isSome)

def set (a : Arena) (id : ScopeId) (scope : Scope) : Arena :=
  { a with slots := a.slots.setIfInBounds id (some scope) }

def create (a : Arena) (parent : Option ScopeId) : ScopeId × Arena :=
  match a.free with
  | id :: free => (id, { slots := a.slots.setIfInBounds id (some (.empty parent)), free })
  | [] => (a.slots.size, { a with slots := a.slots.push (some (.empty parent)) })

/-- Releasing a scope that is not live does nothing. -/
def release (a : Arena) (id : ScopeId) : Arena :=
  if a.isLive id then { slots := a.slots.setIfInBounds id none, free := id :: a.free } else a

/-- The scope of every module that is around all others. -/
def root : ScopeId := 0

/-- An arena with the root scope alone. -/
def withRoot : Arena := (empty.create none).2

def notLive (id : ScopeId) : Cause :=
  .panic s!"environment {id} is not live"

def scope (a : Arena) (id : ScopeId) : Except Cause Scope :=
  match a.get? id with
  | some scope => .ok scope
  | none => .error (notLive id)

def parent (a : Arena) (id : ScopeId) : Except Cause (Option ScopeId) := do
  return (← a.scope id).parent

/-- More steps than a walk can take. -/
def walkBound (a : Arena) : Nat := a.slots.size + 1

/-- The nearest binding of a name, if there is one. -/
def find? (a : Arena) (name : String) : Nat → ScopeId → Except Cause (Option Binding)
  | 0, _ => .ok none
  | bound + 1, id => do
    let scope ← a.scope id
    match scope.get? name, scope.parent with
    | some binding, _ => .ok (some binding)
    | none, some parent => a.find? name bound parent
    | none, none => .ok none

def lookup (a : Arena) (id : ScopeId) (name : String) : Except Cause Value :=
  match ValueType.builtin? name with
  | some t => .ok (.type t)
  | none => do
    match ← a.find? name a.walkBound id with
    | some binding => .ok binding.value
    | none => .error (.variableNotDeclared name)

/-- The value bound in the scope itself. -/
def lookupLocal (a : Arena) (id : ScopeId) (name : String) : Except Cause (Option Value) := do
  return ((← a.scope id).get? name).map (·.value)

def holdsOutward (a : Arena) (name : String) : Nat → ScopeId → Except Cause Bool
  | 0, _ => .ok false
  | bound + 1, id => do
    let scope ← a.scope id
    if scope.holds name then return true
    match scope.parent with
    | some parent => a.holdsOutward name bound parent
    | none => return false

/-- Whether a name is bound: in the scope itself, or also in those around it. -/
def isBound (a : Arena) (id : ScopeId) (name : String) (recursive : Bool) : Except Cause Bool :=
  if (ValueType.builtin? name).isSome then .ok true
  else a.holdsOutward name (if recursive then a.walkBound else 1) id

/-- Binds a name in a scope, with a value that is no longer thin. -/
def bind (a : Arena) (id : ScopeId) (name : String) (value : Value) (constant : Bool) :
    Except Cause Arena := do
  let scope ← a.scope id
  return a.set id (scope.insert name ⟨value.promote, constant⟩)

/-- Binds an argument to its parameter, silently. -/
def bindParameter (a : Arena) (id : ScopeId) (name : String) (value : Value) : Except Cause Arena :=
  a.bind id name value false

/-- Declares a name in a scope. Hiding a visible binding gives a warning, which stands even if the
declaration then fails. -/
def declare (a : Arena) (id : ScopeId) (name : Identifier) (value : Value) (constant : Bool) :
    Option Warning × Except Cause (Declared × Arena) :=
  match a.isBound id name.name true with
  | .error cause => (none, .error cause)
  | .ok false => (none, (a.bind id name.name value constant).map (.fresh, ·))
  | .ok true =>
    (some (.shadowing name.name name.line), (a.bind id name.name value constant).map (.shadowed, ·))

/-- The nearest scope that holds a name, on a chain that nowhere holds it as a constant. -/
def assignmentTarget (a : Arena) (name : String) :
    Nat → Option ScopeId → ScopeId → Except Cause (Option ScopeId)
  | 0, nearest, _ => .ok nearest
  | bound + 1, nearest, id => do
    let scope ← a.scope id
    let nearest ← match scope.get? name with
      | some ⟨_, true⟩ => .error (.constReassignment name)
      | some ⟨_, false⟩ => .ok (nearest.or (some id))
      | none => .ok nearest
    match scope.parent with
    | some parent => a.assignmentTarget name bound nearest parent
    | none => .ok nearest

/-- Gives the nearest binding of a name a new value, of the type it has. A constant of that name
anywhere outward forbids it, even behind a nearer variable. -/
def reassign (a : Arena) (id : ScopeId) (name : String) (value : Value) : Except Cause Arena := do
  if (ValueType.builtin? name).isSome then throw (.constReassignment name)
  let some target ← a.assignmentTarget name a.walkBound none id
    | throw (.variableNotDeclared name)
  let scope ← a.scope target
  if let some binding := scope.get? name then
    (DeclaredType.exactly binding.value.typeOf).check value
  return a.set target (scope.insert name ⟨value.promote, false⟩)

end Arena

end Script

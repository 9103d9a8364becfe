import Script.Files.Tree
import Script.Ghost
import Script.Library
import Script.Library.Native
import Script.Scope.Arena

/-!
# The machine

What a run reads and changes. A module runs on a machine of its own: an arena, the active scope and
the number of calls in progress. All machines of one run share a world: the output, the warnings,
the files being loaded, and what has been inferred about the functions made so far.

A run changes its machine also when it fails. A run that has no answer, since its fuel runs out or it
asks for a list that no memory can hold, is kept apart from every failure of the program.

Every change of the state is a step that the machine enters into its history, together with the calls
that are in progress then and what has been done so far that the state alone does not tell. The
history is a ghost: what holds at every moment of a run can be said with it, and nothing of it is left
when the program runs.
-/

namespace Script

/-- What is fixed while a module runs. -/
structure Context where
  /-- The file of the module, as it was named. -/
  file : String
  /-- Errors are not attributed to statements. -/
  debug : Bool
  /-- How many calls may be in progress at once. -/
  maxDepth : Nat
  library : Library
  files : FileTree
  deriving Inhabited

structure World where
  output : Sink
  warnings : Array Warning
  /-- The files being loaded, the innermost first. -/
  loading : List Location
  /-- For every function made so far, by its number, the type of its results if it is known. -/
  inferred : Array (Option ValueType)
  deriving Inhabited

structure State where
  world : World
  arena : Arena
  active : ScopeId
  depth : Nat
  deriving Inhabited

/-- What was done in a run. -/
inductive Event where
  /-- A `global` declaration bound a name in the root scope. -/
  | declaredGlobal (name : String) (binding : Binding)
  /-- A function was made, which differs from all made before. -/
  | made (f : UserFunction)
  /-- A `return` ended a call of a function with a value that its results may have. -/
  | returned (f : UserFunction) (value : Value)

/-- A state with the functions whose calls are in progress, the innermost first, and with what has
been done so far, the latest first. -/
structure Moment where
  state : State
  calls : List UserFunction
  events : List Event

structure History where
  /-- The functions whose calls are in progress on this machine, the innermost first. -/
  calls : List UserFunction
  /-- What has been done so far on any machine, the latest first. -/
  events : List Event
  /-- The moments gone through on any machine, the latest first. -/
  moments : List Moment
  /-- The causes raised so far, the latest first. -/
  raised : List Cause
  deriving Inhabited

/-- A call begins or ends with the step that says so, and what is done is done in a step. -/
def History.enter (h : History) (calls : List UserFunction) (events : List Event)
    (state : State) : History :=
  { h with calls, events, moments := ⟨state, calls, events⟩ :: h.moments }

structure Machine extends State where
  history : Ghost History
  deriving Inhabited

inductive Stop where
  | failed (e : Error)
  /-- There is no answer: fuel or memory has run out. -/
  | outOfFuel
  deriving Inhabited

abbrev Run := EStateM Stop Machine

namespace World

def empty (limit : Option Nat) : World := ⟨.empty limit, #[], [], #[]⟩

/-- The type that has been inferred for the results of a function. -/
def inferred? (w : World) (id : Nat) : Option ValueType :=
  w.inferred[id]?.join

/-- The type that the results of a function must have: the declared one, or else the inferred. -/
def resultType? (w : World) (f : UserFunction) : Option DeclaredType :=
  f.returns.or ((w.inferred? f.id).map .exactly)

/-- Enters what has been inferred for a function. A function that the host made itself may have any
number, for which there is room then. -/
def infer (w : World) (id : Nat) (t : ValueType) : World :=
  let room := w.inferred ++ Array.replicate (id + 1 - w.inferred.size) none
  { w with inferred := room.setIfInBounds id (some t) }

private theorem join_getElem?_append (inferred : Array (Option ValueType)) (n id : Nat) :
    ((inferred ++ Array.replicate n none)[id]?).join = inferred[id]?.join := by
  rw [Array.getElem?_append]
  split
  · rfl
  · next hout =>
    rw [Array.getElem?_eq_none (Nat.le_of_not_lt hout), Array.getElem?_replicate]
    split <;> rfl

theorem inferred?_infer (w : World) (id : Nat) (t : ValueType) (other : Nat) :
    (w.infer id t).inferred? other = if other = id then some t else w.inferred? other := by
  unfold inferred? infer
  rw [Array.getElem?_setIfInBounds]
  by_cases h : id = other
  · subst h
    have hroom : id < w.inferred.size + (id + 1 - w.inferred.size) := by omega
    simp [hroom]
  · rw [if_neg h, if_neg (Ne.symm h), join_getElem?_append]

theorem size_infer (w : World) (id : Nat) (t : ValueType) :
    (w.infer id t).inferred.size = max w.inferred.size (id + 1) := by
  simp only [infer, Array.size_setIfInBounds, Array.size_append, Array.size_replicate]
  omega

/-- Nothing is inferred for a function that is just made. -/
theorem inferred?_push (w : World) (id : Nat) :
    { w with inferred := w.inferred.push none }.inferred? id = w.inferred? id :=
  join_getElem?_append w.inferred 1 id

end World

/-- The state in which the top level of a module starts. -/
def State.initial (world : World) : State := ⟨world, .withRoot, Arena.root, 0⟩

namespace Machine

/-- Changes the state, and with it the calls in progress and what has been done. -/
@[inline]
def stepWith (m : Machine) (calls : List UserFunction → List UserFunction) (f : State → State)
    (events : List Event := []) : Machine :=
  let state := f m.toState
  ⟨state, m.history.map fun h => h.enter (calls h.calls) (events ++ h.events) state⟩

@[inline]
def step (m : Machine) (f : State → State) : Machine := m.stepWith id f

/-- A new machine in the same world. -/
def fresh (m : Machine) : Machine :=
  m.stepWith (fun _ => []) fun s => .initial s.world

/-- A machine after a run on another one, `m'`, in the same world. -/
def resume (m m' : Machine) : Machine :=
  let state := { m.toState with world := m'.world }
  ⟨state, .map₂ (fun before after => after.enter before.calls after.events state)
    m.history m'.history⟩

/-- A machine before its module runs. -/
def start (world : World) : Machine :=
  ⟨.initial world, .of (History.enter ⟨[], [], [], []⟩ [] [] (.initial world))⟩

/-- A machine for a run that starts with the file of the context. While it runs, that file counts as
being loaded. -/
def first (ctx : Context) (world : World) : Machine :=
  match ctx.files.canonicalize ctx.file with
  | .ok location => start { world with loading := [location] }
  | .error _ => start { world with loading := [] }

def lookup (m : Machine) (name : String) : Except Cause Value :=
  m.arena.lookup m.active name

def lookupRoot (m : Machine) (name : String) : Except Cause Value :=
  m.arena.lookup Arena.root name

def resultType? (m : Machine) (f : UserFunction) : Option DeclaredType :=
  m.world.resultType? f

end Machine

namespace Run

/-- Changes the state. -/
def update (f : State → State) : Run Unit :=
  modify (·.step f)

/-- Changes the state with something that is done. -/
def record (event : Event) (f : State → State) : Run Unit :=
  modify (·.stepWith id f [event])

def fail (e : Error) : Run α := fun m =>
  .error (.failed e)
    { m with history := m.history.map fun h => { h with raised := e.cause :: h.raised } }

def raise (cause : Cause) : Run α :=
  fail (.ofCause cause)

def ofExcept : Except Cause α → Run α
  | .ok a => pure a
  | .error cause => raise cause

def warn (warning : Warning) : Run Unit :=
  update fun s => { s with world.warnings := s.world.warnings.push warning }

def lookup (name : String) : Run Value := do
  ofExcept ((← get).lookup name)

/-- Changes the arena, or fails and leaves it as it is. -/
def updateArena (f : Arena → Except Cause Arena) : Run Unit := do
  let arena ← ofExcept (f (← get).arena)
  update fun s => { s with arena }

def declare (scope : ScopeId) (name : Identifier) (value : Value) (constant : Bool) : Run Unit := do
  let (warning, result) := (← get).arena.declare scope name value constant
  if let some warning := warning then
    warn warning
  let declared ← ofExcept result
  update fun s => { s with arena := declared.2 }

/-- Declares a name in the root scope from wherever a function runs. -/
def declareGlobal (name : Identifier) (value : Value) (constant : Bool) : Run Unit := do
  declare Arena.root name value constant
  record (.declaredGlobal name.name ⟨value.promote, constant⟩) id

/-- Binds a name in the active scope or around it to a new value. -/
def reassign (name : String) (value : Value) : Run Unit := do
  let scope := (← get).active
  updateArena fun arena => arena.reassign scope name value

/-- Runs inside a new scope, which is left and released whatever happens. -/
def withScope (parent : ScopeId) (inner : Run α) : Run α := fun m =>
  let (scope, arena) := m.arena.create (some parent)
  let leave (m' : Machine) : Machine :=
    m'.step fun s => { s with arena := s.arena.release scope, active := m.active }
  match inner (m.step fun s => { s with arena, active := scope }) with
  | .ok a m' => .ok a (leave m')
  | .error e m' => .error e (leave m')

/-- Counts as one more call in progress, which ends whatever happens. -/
def deeper (f : UserFunction) (inner : Run α) : Run α := fun m =>
  let leave (m' : Machine) : Machine := m'.stepWith List.tail fun s => { s with depth := s.depth - 1 }
  match inner (m.stepWith (f :: ·) fun s => { s with depth := s.depth + 1 }) with
  | .ok a m' => .ok a (leave m')
  | .error e m' => .error e (leave m')

/-- Runs on a new machine in the same world, and gives its arena. -/
def onNewMachine (inner : Run Unit) : Run Arena := fun m =>
  match inner m.fresh with
  | .ok _ m' => .ok m'.arena (m.resume m')
  | .error e m' => .error e (m.resume m')

/-- Counts a file as being loaded, until the run ends whatever happens. -/
def whileLoading (location : Location) (inner : Run α) : Run α := fun m =>
  let leave (m' : Machine) : Machine :=
    m'.step fun s => { s with world.loading := s.world.loading.tail }
  match inner (m.step fun s => { s with world.loading := location :: s.world.loading }) with
  | .ok a m' => .ok a (leave m')
  | .error e m' => .error e (leave m')

/-- Maps the error of a run that fails. -/
def mapError (f : Error → Error) (inner : Run α) : Run α := fun m =>
  match inner m with
  | .error (.failed e) m' => .error (.failed (f e)) m'
  | result => result

/-- Attributes an error to the statement it escapes from; debug mode leaves errors as they are. -/
def attributed (ctx : Context) (stmt : Stmt) (inner : Run α) : Run α :=
  if ctx.debug then inner else inner.mapError fun e => e.atStatement stmt.kind stmt.span.start

def callNative (f : Native) (arguments : List Value) : Run Value :=
  if f.overflows arguments then throw .outOfFuel
  else do
    let (result, output) := f.call arguments (← get).world.output
    update fun s => { s with world.output := output }
    ofExcept result

/-- Makes a function, which differs from all made before. -/
def makeFunction (name : String) (parameters : List (Identifier × Option DeclaredType))
    (returns : Option DeclaredType) (body : Block) (position : Position) : Run UserFunction := do
  let id := (← get).world.inferred.size
  let f : UserFunction := { id, name, parameters, returns, body, position }
  record (.made f) fun s => { s with world.inferred := s.world.inferred.push none }
  return f

/-- Checks a result against the type that a function must return. The first result of a function
without one fixes it. -/
def checkResult (f : UserFunction) (value : Value) : Run Unit := do
  match (← get).resultType? f with
  | some declared =>
    ofExcept (declared.check value)
    record (.returned f value) id
  | none =>
    record (.returned f value) fun s => { s with world := s.world.infer f.id value.typeOf }

end Run

end Script

import Mathlib.Data.Set.Insert
import Script.Eval.Call
import Script.Proofs.Eval.History
import Script.Proofs.Value.Computing

/-!
# Runs side by side

Two runs of the same program go in step, each on a machine of its own, as long as the machines
correspond and the primitives of the evaluator keep them so. The second program may stand at other
places than the first one. What a correspondence is to be is left open here, and so is what is to be
said of the way from one state of the first machine to a later one, in which ways both runs may stop,
and when one of them may fail without the other. The rules below put runs together; a run beside
itself is a case of two runs.
-/

namespace Script

/-- The stop with its error mapped. -/
def Stop.mapError (f : Error → Error) : Stop → Stop
  | failed e => .failed (f e)
  | outOfFuel => .outOfFuel

/-- The stop as it leaves a statement. -/
def Stop.attributed (ctx : Context) (kind : StmtKind) (position : Position) (stop : Stop) : Stop :=
  if ctx.debug then stop else stop.mapError fun e => e.atStatement kind position

theorem Error.cause_atStatement (e : Error) (kind : StmtKind) (position : Position) :
    (e.atStatement kind position).cause = e.cause := by
  unfold atStatement
  split <;> rfl

theorem Stop.attributed_outOfFuel (ctx : Context) (kind : StmtKind) (position : Position) :
    outOfFuel.attributed ctx kind position = .outOfFuel := by
  unfold attributed
  split <;> rfl

/-- To whatever statement an error is attributed, its cause stays the same. -/
theorem Stop.attributed_failed (ctx : Context) (kind : StmtKind) (position : Position) (e : Error) :
    ∃ e', (failed e).attributed ctx kind position = .failed e' ∧ e'.cause = e.cause := by
  unfold attributed
  split
  · exact ⟨e, rfl, rfl⟩
  · exact ⟨_, rfl, e.cause_atStatement kind position⟩

namespace Run

/-- Attributes an error to a statement, given by its kind and where it begins. -/
def attributedTo (ctx : Context) (kind : StmtKind) (position : Position) (inner : Run α) : Run α :=
  if ctx.debug then inner else inner.mapError fun e => e.atStatement kind position

variable {m n : Machine} {x : Run α} {f : α → Run β}

theorem get_bind (f : Machine → Run α) : (MonadState.get >>= f) m = f m m :=
  rfl

theorem callNative_of_overflows {f : Native} {arguments : List Value}
    (h : f.overflows arguments) : callNative f arguments = throw .outOfFuel :=
  if_pos h

theorem callNative_of_fits {f : Native} {arguments : List Value}
    (h : f.overflows arguments = false) (m : Machine) :
    callNative f arguments m = ofExcept (f.call arguments m.world.output).1
      (m.step fun s => { s with world.output := (f.call arguments m.world.output).2 }) := by
  rw [callNative, if_neg (ne_true_of_eq_false h)]
  rfl

theorem bind_of_ok {a : α} (h : x m = .ok a n) : (x >>= f) m = f a n := by
  change EStateM.bind x f m = _
  rw [EStateM.bind, h]

theorem bind_of_error {stop : Stop} (h : x m = .error stop n) : (x >>= f) m = .error stop n := by
  change EStateM.bind x f m = _
  rw [EStateM.bind, h]

theorem mapError_of_ok {g : Error → Error} {a : α} (h : x m = .ok a n) :
    mapError g x m = .ok a n := by
  rw [mapError, h]

theorem mapError_of_error {g : Error → Error} {stop : Stop} (h : x m = .error stop n) :
    mapError g x m = .error (stop.mapError g) n := by
  rw [mapError, h]
  cases stop <;> rfl

theorem attributedTo_of_ok {ctx : Context} {kind : StmtKind} {position : Position} {a : α}
    (h : x m = .ok a n) : attributedTo ctx kind position x m = .ok a n := by
  unfold attributedTo
  split
  · exact h
  · exact mapError_of_ok h

theorem attributedTo_of_error {ctx : Context} {kind : StmtKind} {position : Position} {stop : Stop}
    (h : x m = .error stop n) :
    attributedTo ctx kind position x m = .error (stop.attributed ctx kind position) n := by
  unfold attributedTo Stop.attributed
  split
  · exact h
  · exact mapError_of_error h

end Run

theorem evaluateAll_cons {call : Caller} {m m' n : Machine} {e : Expr} {exprs : List Expr}
    {value : Value} {values : List Value} (h : evaluate call e m = .ok value m')
    (hs : evaluateAll call exprs m' = .ok values n) :
    evaluateAll call (e :: exprs) m = .ok (value.promote :: values) n := by
  rw [evaluateAll, Run.bind_of_ok h, Run.bind_of_ok hs]
  rfl

namespace Machine

/-- A machine that enters a new scope inside the active one. -/
def enterScope (m : Machine) : Machine :=
  m.step fun s => { s with
    arena := (m.arena.create (some m.active)).2, active := (m.arena.create (some m.active)).1 }

/-- The machine `n` that leaves the scope that was entered from `m`. -/
def leaveScope (m n : Machine) : Machine :=
  n.step fun s => { s with
    arena := s.arena.release (m.arena.create (some m.active)).1, active := m.active }

def enterCall (m : Machine) (f : UserFunction) : Machine :=
  m.stepWith (f :: ·) fun s => { s with depth := s.depth + 1 }

def leaveCall (m : Machine) : Machine :=
  m.stepWith List.tail fun s => { s with depth := s.depth - 1 }

def enterFile (m : Machine) (location : Location) : Machine :=
  m.step fun s => { s with world.loading := location :: s.world.loading }

def leaveFile (m : Machine) : Machine :=
  m.step fun s => { s with world.loading := s.world.loading.tail }

/-- A machine on which a cause is raised. -/
def raise (m : Machine) (cause : Cause) : Machine :=
  { m with history := m.history.map fun h => { h with raised := cause :: h.raised } }

@[simp]
theorem now_raise (m : Machine) (cause : Cause) : (m.raise cause).now = m.now := by
  simp [now, raise]

@[simp]
theorem moments_raise (m : Machine) (cause : Cause) : (m.raise cause).moments = m.moments := by
  simp [moments, raise]

@[simp]
theorem raised_raise (m : Machine) (cause : Cause) :
    (m.raise cause).raised = cause :: m.raised := by
  simp [raised, raise]

end Machine

/-- What is watched of two runs that go side by side. -/
structure Lockstep where
  /-- Two machines correspond. -/
  Rel : Machine → Machine → Prop
  /-- What may happen to the first machine while only the given names are declared in its active
  scope. -/
  Step : Set String → Machine → Machine → Prop
  /-- The value of the second run for one of the first. -/
  value : Value → Value
  /-- The number of a function in the second run for its number in the first. -/
  number : Nat → Nat := id
  /-- The places in the second program for those in the first. -/
  displacement : Displacement := .id
  /-- The ways in which both runs may stop. -/
  Stops : Stop → Stop → Prop := Eq
  /-- The first run has raised what the second one need not raise. -/
  Gone : List Cause → Prop := fun _ => False
  /-- The second run may have stopped in a way, with the first of the outputs, where the first one
  goes on and has come to the second of them. -/
  Left : Stop → Sink → Sink → Prop := fun _ _ _ => False

namespace Lockstep

/-- The second run follows the first one to every end. -/
class Total (L : Lockstep) : Prop where
  not_gone : ∀ raised, ¬L.Gone raised

/-- The first run follows the second one to every end. -/
class Faithful (L : Lockstep) : Prop where
  not_left : ∀ stop output output', ¬L.Left stop output output'

/-- The second run is one of the very same program, and stops as the first one does. -/
class Exact (L : Lockstep) : Prop extends L.Faithful where
  displacement : L.displacement = .id
  stops : L.Stops = Eq

/-- The function of the second run for one of the first. -/
def function (L : Lockstep) (f : UserFunction) : UserFunction :=
  (f.move L.displacement).renumber L.number

variable {L : Lockstep} {own own' : Set String} {m m' n n' k : Machine}

theorem function_of_exact [L.Exact] (f : UserFunction) : L.function f = f.renumber L.number := by
  rw [function, Exact.displacement, UserFunction.move_id]

/-- The first run goes on alone from `m`, to an end at `n` that the second one might have come to
with it. -/
inductive Goes (L : Lockstep) (own : Set String) (Q : α → α → Prop) (x : Run α) (m n : Machine) :
    Prop
  | of_ok {a a' : α} {n' : Machine} (hx : x m = .ok a n) (hrel : L.Rel n n')
      (hstep : L.Step own m n) (h : Q a a')
  | of_error {stop : Stop} {n' : Machine} (hx : x m = .error stop n) (hrel : L.Rel n n')
      (hstep : L.Step own m n)

/-- From `m` and `m'` both runs end in machines that correspond: with results as `Q` says, or
stopped in ways that go together. Or else the first one has gone where the second need not follow,
or the second one has stopped where the first goes on. -/
inductive At (L : Lockstep) (own : Set String) (Q : α → α → Prop) (x x' : Run α) (m m' : Machine) :
    Prop
  | of_ok {a a' : α} {n n' : Machine} (hx : x m = .ok a n) (hx' : x' m' = .ok a' n')
      (hrel : L.Rel n n') (hstep : L.Step own m n) (h : Q a a')
  | of_stop {stop stop' : Stop} {n n' : Machine} (hx : x m = .error stop n)
      (hx' : x' m' = .error stop' n') (hrel : L.Rel n n') (hstep : L.Step own m n)
      (hstops : L.Stops stop stop')
  | of_gone {stop : Stop} {n : Machine} (hx : x m = .error stop n) (hgone : L.Gone n.raised)
  | of_left {stop' : Stop} {n n' : Machine} (hgoes : L.Goes own Q x m n)
      (hx' : x' m' = .error stop' n') (hleft : L.Left stop' n'.world.output n.world.output)

/-- The same from all machines that correspond. -/
def Along (L : Lockstep) (own : Set String) (Q : α → α → Prop) (x x' : Run α) : Prop :=
  ∀ m m', L.Rel m m' → L.At own Q x x' m m'

/-- The results are values that correspond. -/
def Valued (L : Lockstep) (v v' : Value) : Prop := v' = L.value v

/-- The results are the same. -/
def Same (a a' : α) : Prop := a' = a

/-- The results are of no account. -/
def Ended (_ _ : α) : Prop := True

/-- How runs stop that attribute errors to statements, each in its context. -/
structure Attributes (L : Lockstep) (ctx ctx' : Context) : Prop where
  stops : ∀ {stop stop'}, L.Stops stop stop' → ∀ kind position,
    L.Stops (stop.attributed ctx kind position)
      (stop'.attributed ctx' kind (position.move L.displacement))
  left : ∀ {stop output output'}, L.Left stop output output' → ∀ kind position,
    L.Left (stop.attributed ctx' kind position) output output'

theorem Attributes.of_debug [L.Exact] {ctx ctx' : Context} (h : ctx'.debug = ctx.debug) :
    L.Attributes ctx ctx' where
  stops hstops kind position := by
    rw [Exact.stops] at hstops ⊢
    rw [hstops, Exact.displacement, Stop.attributed, Stop.attributed, h]
    rfl
  left hleft := absurd hleft (Faithful.not_left _ _ _)

/-- Both runs may stop for what is raised outside of statements. A first run that goes on alone
comes no nearer to the second one. -/
structure Stopping (L : Lockstep) : Prop where
  fails : ∀ e : Error, e.statement = none → L.Stops (.failed e) (.failed e)
  exhausted : L.Stops .outOfFuel .outOfFuel
  left : ∀ {own m n stop output}, L.Left stop output m.world.output → L.Step own m n →
    L.Left stop output n.world.output

theorem Stopping.of_exact [L.Exact] : L.Stopping where
  fails _ _ := by rw [Exact.stops]
  exhausted := by rw [Exact.stops]
  left hleft := absurd hleft (Faithful.not_left _ _ _)

/-- The ways that the first machine may go can be put together, and nothing comes of raising a
cause. -/
structure Steady (L : Lockstep) : Prop extends L.Stopping where
  refl : ∀ {m}, L.Step ∅ m m
  trans : ∀ {own m n k}, L.Step own m n → L.Step own n k → L.Step own m k
  mono : ∀ {own own' m n}, own ⊆ own' → L.Step own m n → L.Step own' m n
  raised : ∀ {m m'}, L.Rel m m' → ∀ cause,
    L.Rel (m.raise cause) (m'.raise cause) ∧ L.Step ∅ m (m.raise cause)

/-- What the primitives must keep for a program to run in step. -/
structure Lawful (L : Lockstep) : Prop extends L.Steady where
  transparent : Transparent L.number L.value L.displacement
  active : ∀ {m m'}, L.Rel m m' → m'.active = m.active
  depth : ∀ {m m'}, L.Rel m m' → m'.depth = m.depth
  lookup : ∀ {m m'}, L.Rel m m' → ∀ id name,
    m'.arena.lookup id name = (m.arena.lookup id name).map L.value
  callNative : ∀ (f : Native) {arguments}, (∀ value ∈ arguments, value.promote = value) →
    L.Along ∅ L.Valued (Run.callNative f arguments) (Run.callNative f (arguments.map L.value))
  declare : ∀ {m m'}, L.Rel m m' → ∀ (name : Identifier) (value : Value) (constant : Bool),
    L.At {name.name} Ended (Run.declare m.active name value constant)
      (Run.declare m'.active (name.move L.displacement) (L.value value) constant) m m'
  declareGlobal : ∀ (name : Identifier) (value : Value) (constant : Bool),
    L.Along ∅ Ended (Run.declareGlobal name value constant)
      (Run.declareGlobal (name.move L.displacement) (L.value value) constant)
  reassign : ∀ (name : String) (value : Value),
    L.Along ∅ Ended (Run.reassign name value) (Run.reassign name (L.value value))
  bindParameter : ∀ {m m'}, L.Rel m m' → ∀ (name : String) (value : Value),
    L.At {name} Ended (Run.updateArena fun arena => arena.bindParameter m.active name value)
      (Run.updateArena fun arena => arena.bindParameter m'.active name (L.value value)) m m'
  checkResult : ∀ (f : UserFunction) (value : Value),
    L.Along ∅ Ended (Run.checkResult f value)
      (Run.checkResult (L.function f) (L.value value))
  enterScope : ∀ {m m'}, L.Rel m m' → L.Rel m.enterScope m'.enterScope
  leaveScope : ∀ {m m' n n'}, L.Rel m m' → L.Rel n n' → L.Step .univ m.enterScope n →
    L.Rel (m.leaveScope n) (m'.leaveScope n') ∧ L.Step ∅ m (m.leaveScope n)
  enterCall : ∀ {m m'}, L.Rel m m' → ∀ f,
    L.Rel (m.enterCall f) (m'.enterCall (L.function f))
  leaveCall : ∀ {m m' n n'} {f : UserFunction}, L.Rel m m' → L.Rel n n' →
    L.Step ∅ (m.enterCall f) n → L.Rel n.leaveCall n'.leaveCall ∧ L.Step ∅ m n.leaveCall

/-! ### One run alone -/

namespace Goes

variable {Q : α → α → Prop} {P : β → β → Prop} {x : Run α}

theorem step (h : L.Goes own Q x m n) : L.Step own m n := by
  cases h with
  | of_ok _ _ hstep _ => exact hstep
  | of_error _ _ hstep => exact hstep

theorem congr {y : Run α} (h : L.Goes own Q x m n) (hy : y m = x m) : L.Goes own Q y m n := by
  cases h with
  | of_ok hx hrel hstep h => exact .of_ok (hy.trans hx) hrel hstep h
  | of_error hx hrel hstep => exact .of_error (hy.trans hx) hrel hstep

theorem attributedTo (h : L.Goes own Q x m n) (ctx : Context) (kind : StmtKind)
    (position : Position) : L.Goes own Q (x.attributedTo ctx kind position) m n := by
  cases h with
  | of_ok hx hrel hstep h => exact .of_ok (Run.attributedTo_of_ok hx) hrel hstep h
  | of_error hx hrel hstep => exact .of_error (Run.attributedTo_of_error hx) hrel hstep

theorem mapError (h : L.Goes own Q x m n) (g : Error → Error) :
    L.Goes own Q (x.mapError g) m n := by
  cases h with
  | of_ok hx hrel hstep h => exact .of_ok (Run.mapError_of_ok hx) hrel hstep h
  | of_error hx hrel hstep => exact .of_error (Run.mapError_of_error hx) hrel hstep

end Goes

namespace At

variable {Q : α → α → Prop} {P : β → β → Prop}

/-- The second run ends as the first one does. -/
theorem ends [L.Total] [L.Exact] {x x' : Run α} (h : L.At own Q x x' m m') :
    (∃ a n a' n', x m = .ok a n ∧ x' m' = .ok a' n' ∧ L.Rel n n' ∧ L.Step own m n ∧ Q a a') ∨
      ∃ stop n n', x m = .error stop n ∧ x' m' = .error stop n' ∧ L.Rel n n' ∧ L.Step own m n := by
  cases h with
  | of_ok hx hx' hrel hstep h => exact .inl ⟨_, _, _, _, hx, hx', hrel, hstep, h⟩
  | @of_stop stop _ _ _ hx hx' hrel hstep hstops =>
    rw [Exact.stops] at hstops
    subst hstops
    exact .inr ⟨stop, _, _, hx, hx', hrel, hstep⟩
  | of_gone hx hgone => exact absurd hgone (Total.not_gone _)
  | of_left hgoes hx' hleft => exact absurd hleft (Faithful.not_left _ _ _)

/-- The first run goes where it would go alone. -/
theorem goes {x x' : Run α} (h : L.At own Q x x' m m') :
    (∃ n, L.Goes own Q x m n) ∨ ∃ stop n, x m = .error stop n ∧ L.Gone n.raised := by
  cases h with
  | of_ok hx _ hrel hstep h => exact .inl ⟨_, .of_ok hx hrel hstep h⟩
  | of_stop hx _ hrel hstep _ => exact .inl ⟨_, .of_error hx hrel hstep⟩
  | of_gone hx hgone => exact .inr ⟨_, _, hx, hgone⟩
  | of_left hgoes _ _ => exact .inl ⟨_, hgoes⟩

/-- Both runs stop in the same way. -/
theorem of_error [L.Exact] {x x' : Run α} (stop : Stop) (hx : x m = .error stop n)
    (hx' : x' m' = .error stop n') (hrel : L.Rel n n') (hstep : L.Step own m n) :
    L.At own Q x x' m m' :=
  .of_stop hx hx' hrel hstep (by rw [Exact.stops])

/-- The same runs, written in another way. -/
theorem congr {x x' y y' : Run α} (h : L.At own Q x x' m m') (hy : y m = x m)
    (hy' : y' m' = x' m') : L.At own Q y y' m m' := by
  cases h with
  | of_ok hx hx' hrel hstep h => exact .of_ok (hy.trans hx) (hy'.trans hx') hrel hstep h
  | of_stop hx hx' hrel hstep hstops =>
    exact .of_stop (hy.trans hx) (hy'.trans hx') hrel hstep hstops
  | of_gone hx hgone => exact .of_gone (hy.trans hx) hgone
  | of_left hgoes hx' hleft => exact .of_left (hgoes.congr hy) (hy'.trans hx') hleft

theorem get {f f' : Machine → Run α} (h : L.At own Q (f m) (f' m') m m') :
    L.At own Q (MonadState.get >>= f) (MonadState.get >>= f') m m' :=
  h.congr (Run.get_bind f) (Run.get_bind f')

/-- Both runs map their errors, in ways that keep them stopping in step. -/
theorem mapError {x x' : Run α} {g g' : Error → Error}
    (hstops : ∀ {stop stop'}, L.Stops stop stop' → L.Stops (stop.mapError g) (stop'.mapError g'))
    (hleft : ∀ {stop output output'}, L.Left stop output output' →
      L.Left (stop.mapError g') output output')
    (h : L.At own Q x x' m m') : L.At own Q (Run.mapError g x) (Run.mapError g' x') m m' := by
  cases h with
  | of_ok hx hx' hrel hstep h =>
    exact .of_ok (Run.mapError_of_ok hx) (Run.mapError_of_ok hx') hrel hstep h
  | of_stop hx hx' hrel hstep h =>
    exact .of_stop (Run.mapError_of_error hx) (Run.mapError_of_error hx') hrel hstep (hstops h)
  | of_gone hx hgone => exact .of_gone (Run.mapError_of_error hx) hgone
  | of_left hgoes hx' h =>
    exact .of_left (hgoes.mapError g) (Run.mapError_of_error hx') (hleft h)

theorem attributedTo {ctx ctx' : Context} (hctx : L.Attributes ctx ctx') (kind : StmtKind)
    (position : Position) {x x' : Run α} (h : L.At own Q x x' m m') :
    L.At own Q (x.attributedTo ctx kind position)
      (x'.attributedTo ctx' kind (position.move L.displacement)) m m' := by
  cases h with
  | of_ok hx hx' hrel hstep h =>
    exact .of_ok (Run.attributedTo_of_ok hx) (Run.attributedTo_of_ok hx') hrel hstep h
  | of_stop hx hx' hrel hstep h =>
    exact .of_stop (Run.attributedTo_of_error hx) (Run.attributedTo_of_error hx') hrel hstep
      (hctx.stops h kind position)
  | of_gone hx hgone => exact .of_gone (Run.attributedTo_of_error hx) hgone
  | of_left hgoes hx' h =>
    exact .of_left (hgoes.attributedTo ctx kind position) (Run.attributedTo_of_error hx')
      (hctx.left h kind _)

theorem attributed {ctx ctx' : Context} (hctx : L.Attributes ctx ctx') {stmt : Stmt}
    {x x' : Run α} (h : L.At own Q x x' m m') :
    L.At own Q (Run.attributed ctx stmt x) (Run.attributed ctx' (stmt.move L.displacement) x')
      m m' := by
  have hstmt := h.attributedTo hctx stmt.kind stmt.span.start
  rw [← Stmt.kind_move L.displacement] at hstmt
  exact hstmt.congr (by rw [Stmt.kind_move]; rfl) (by rw [Run.attributed, Stmt.span_move]; rfl)

/-- A run with a bracket around it, which comes back from what was entered however it ends. -/
theorem bracket {x x' y y' : Run α} {first first' : Machine} {leave leave' : Machine → Machine}
    (hy : y m = match x first with
      | .ok a n => .ok a (leave n)
      | .error stop n => .error stop (leave n))
    (hy' : y' m' = match x' first' with
      | .ok a n => .ok a (leave' n)
      | .error stop n => .error stop (leave' n))
    (hraised : ∀ n, (leave n).raised = n.raised)
    (houtput : ∀ n, (leave n).world.output = n.world.output)
    (houtput' : ∀ n, (leave' n).world.output = n.world.output)
    (hx : L.At own' Q x x' first first')
    (hleave : ∀ n n', L.Rel n n' → L.Step own' first n →
      L.Rel (leave n) (leave' n') ∧ L.Step own m (leave n)) : L.At own Q y y' m m' := by
  cases hx with
  | of_ok hx hx' hrel hstep h =>
    obtain ⟨hrel, hstep⟩ := hleave _ _ hrel hstep
    exact .of_ok (by rw [hy, hx]) (by rw [hy', hx']) hrel hstep h
  | of_stop hx hx' hrel hstep hstops =>
    obtain ⟨hrel, hstep⟩ := hleave _ _ hrel hstep
    exact .of_stop (by rw [hy, hx]) (by rw [hy', hx']) hrel hstep hstops
  | of_gone hx hgone => exact .of_gone (by rw [hy, hx]) (by rwa [hraised])
  | @of_left _ n n' hgoes hx' hleft =>
    rw [← houtput n, ← houtput' n'] at hleft
    refine .of_left ?_ (by rw [hy', hx']) hleft
    cases hgoes with
    | of_ok hx hrel hstep h =>
      obtain ⟨hrel, hstep⟩ := hleave _ _ hrel hstep
      exact .of_ok (by rw [hy, hx]) hrel hstep h
    | of_error hx hrel hstep =>
      obtain ⟨hrel, hstep⟩ := hleave _ _ hrel hstep
      exact .of_error (by rw [hy, hx]) hrel hstep

theorem update {f f' : State → State} (hrel : L.Rel (m.step f) (m'.step f'))
    (hstep : L.Step own m (m.step f)) : L.At own Ended (Run.update f) (Run.update f') m m' :=
  .of_ok rfl rfl hrel hstep trivial

theorem record {event event' : Event} {f f' : State → State}
    (hrel : L.Rel (m.stepWith id f [event]) (m'.stepWith id f' [event']))
    (hstep : L.Step own m (m.stepWith id f [event])) :
    L.At own Ended (Run.record event f) (Run.record event' f') m m' :=
  .of_ok rfl rfl hrel hstep trivial

end At

namespace Steady

variable {Q : α → α → Prop} {P : β → β → Prop} (hL : L.Steady)

include hL

theorem weaken {x x' : Run α} (h : L.At own Q x x' m m') (hown : own ⊆ own') :
    L.At own' Q x x' m m' := by
  cases h with
  | of_ok hx hx' hrel hstep h => exact .of_ok hx hx' hrel (hL.mono hown hstep) h
  | of_stop hx hx' hrel hstep hstops => exact .of_stop hx hx' hrel (hL.mono hown hstep) hstops
  | of_gone hx hgone => exact .of_gone hx hgone
  | of_left hgoes hx' hleft =>
    refine .of_left ?_ hx' hleft
    cases hgoes with
    | of_ok hx hrel hstep h => exact .of_ok hx hrel (hL.mono hown hstep) h
    | of_error hx hrel hstep => exact .of_error hx hrel (hL.mono hown hstep)

theorem widen {x x' : Run α} (h : L.At ∅ Q x x' m m') : L.At own Q x x' m m' :=
  hL.weaken h (Set.empty_subset own)

theorem stay : L.Step own m m :=
  hL.mono (Set.empty_subset own) hL.refl

theorem pure {a a' : α} (hm : L.Rel m m') (h : Q a a') :
    L.At own Q (Pure.pure a : Run α) (Pure.pure a') m m' :=
  .of_ok rfl rfl hm hL.stay h

theorem outOfFuel (hm : L.Rel m m') :
    L.At own Q (throw .outOfFuel : Run α) (throw .outOfFuel) m m' :=
  .of_stop rfl rfl hm hL.stay hL.exhausted

/-- An error that has not reached a statement. -/
theorem fail (hm : L.Rel m m') {e : Error} (he : e.statement = none) :
    L.At own Q (Run.fail e : Run α) (Run.fail e) m m' := by
  obtain ⟨hrel, hstep⟩ := hL.raised hm e.cause
  exact .of_stop rfl rfl hrel (hL.mono (Set.empty_subset own) hstep) (hL.fails e he)

theorem raise (hm : L.Rel m m') (cause : Cause) :
    L.At own Q (Run.raise cause : Run α) (Run.raise cause) m m' :=
  hL.fail hm rfl

/-- The first run goes on alone with what follows. -/
theorem goes_bind {x : Run α} {f : α → Run β} {a : α} (hx : x m = .ok a n)
    (hstep : L.Step own m n) (hf : L.Goes own P (f a) n k) : L.Goes own P (x >>= f) m k := by
  have hbind := Run.bind_of_ok (f := f) hx
  cases hf with
  | of_ok hy hrel hstep' h => exact .of_ok (hbind.trans hy) hrel (hL.trans hstep hstep') h
  | of_error hy hrel hstep' => exact .of_error (hbind.trans hy) hrel (hL.trans hstep hstep')

/-- What follows when the second run has stopped and the first one has not. -/
theorem left_bind {x x' : Run α} {f f' : α → Run β} {stop' : Stop}
    (hgoes : L.Goes own Q x m n) (hx' : x' m' = .error stop' n')
    (hleft : L.Left stop' n'.world.output n.world.output)
    (hf : ∀ a a' n n', L.Rel n n' → Q a a' → L.At own P (f a) (f' a') n n') :
    L.At own P (x >>= f) (x' >>= f') m m' := by
  have hbind' := Run.bind_of_error (f := f') hx'
  cases hgoes with
  | of_error hx hrel hstep =>
    exact .of_left (.of_error (Run.bind_of_error hx) hrel hstep) hbind' hleft
  | of_ok hx hrel hstep h =>
    obtain ⟨k, hk⟩ | ⟨stop, k, hy, hgone⟩ := (hf _ _ _ _ hrel h).goes
    · exact .of_left (hL.goes_bind hx hstep hk) hbind' (hL.left hleft hk.step)
    · exact .of_gone ((Run.bind_of_ok hx).trans hy) hgone

theorem bind {x x' : Run α} {f f' : α → Run β} (hx : L.At own Q x x' m m')
    (hf : ∀ a a' n n', L.Rel n n' → Q a a' → L.At own P (f a) (f' a') n n') :
    L.At own P (x >>= f) (x' >>= f') m m' := by
  cases hx with
  | of_ok hx hx' hrel hstep h =>
    have hbind := Run.bind_of_ok (f := f) hx
    have hbind' := Run.bind_of_ok (f := f') hx'
    cases hf _ _ _ _ hrel h with
    | of_ok hy hy' hrel hstep' h =>
      exact .of_ok (hbind.trans hy) (hbind'.trans hy') hrel (hL.trans hstep hstep') h
    | of_stop hy hy' hrel hstep' hstops =>
      exact .of_stop (hbind.trans hy) (hbind'.trans hy') hrel (hL.trans hstep hstep') hstops
    | of_gone hy hgone => exact .of_gone (hbind.trans hy) hgone
    | of_left hgoes hy' hleft =>
      exact .of_left (hL.goes_bind hx hstep hgoes) (hbind'.trans hy') hleft
  | of_stop hx hx' hrel hstep hstops =>
    exact .of_stop (Run.bind_of_error hx) (Run.bind_of_error hx') hrel hstep hstops
  | of_gone hx hgone => exact .of_gone (Run.bind_of_error hx) hgone
  | of_left hgoes hx' hleft => exact hL.left_bind hgoes hx' hleft hf

/-- Both give up where a computation on values does, and for the same cause. -/
theorem ofExcept {result : Except Cause α} {g : α → α} (hm : L.Rel m m')
    (h : ∀ a, result = .ok a → Q a (g a)) :
    L.At own Q (Run.ofExcept result) (Run.ofExcept (result.map g)) m m' := by
  cases result with
  | ok a => exact hL.pure hm (h a rfl)
  | error cause => exact hL.raise hm cause

/-- A computation that gives the same on both sides. -/
theorem ofExcept_same {result result' : Except Cause α} (hm : L.Rel m m')
    (h : result' = result) : L.At own Same (Run.ofExcept result) (Run.ofExcept result') m m' := by
  subst h
  cases result' with
  | ok a => exact hL.pure hm rfl
  | error cause => exact hL.raise hm cause

theorem ofExcept_value {result result' : Except Cause Value} (hm : L.Rel m m')
    (h : result' = result.map L.value) :
    L.At own L.Valued (Run.ofExcept result) (Run.ofExcept result') m m' := by
  rw [h]
  exact hL.ofExcept hm fun _ _ => rfl

/-- Changes of the arena that go through on both sides or on none. -/
theorem updateArena {f f' : Arena → Except Cause Arena} {g : Arena → Arena} (hm : L.Rel m m')
    (hf : f' m'.arena = (f m.arena).map g)
    (hok : ∀ a, f m.arena = .ok a → L.Rel (m.step fun s => { s with arena := a })
      (m'.step fun s => { s with arena := g a }) ∧
      L.Step own m (m.step fun s => { s with arena := a })) :
    L.At own Ended (Run.updateArena f) (Run.updateArena f') m m' := by
  apply At.get
  rw [hf]
  cases hresult : f m.arena with
  | error cause => exact hL.raise hm cause
  | ok a => exact .update (hok a hresult).1 (hok a hresult).2

end Steady

namespace Lawful

variable {Q : α → α → Prop} (hL : L.Lawful)

include hL

theorem withScope {inner inner' : Run α} (hm : L.Rel m m')
    (hinner : L.Along .univ Q inner inner') :
    L.At own Q (Run.withScope m.active inner) (Run.withScope m'.active inner') m m' := by
  refine .bracket rfl rfl (fun _ => Machine.raised_step ..) (fun _ => rfl) (fun _ => rfl)
    (hinner _ _ (hL.enterScope hm)) fun n n' hrel hstep => ?_
  obtain ⟨hrel, hstep⟩ := hL.leaveScope hm hrel hstep
  exact ⟨hrel, hL.mono (Set.empty_subset own) hstep⟩

theorem deeper {f : UserFunction} {inner inner' : Run α} (hm : L.Rel m m')
    (hinner : L.At ∅ Q inner inner' (m.enterCall f) (m'.enterCall (L.function f))) :
    L.At own Q (Run.deeper f inner) (Run.deeper (L.function f) inner') m m' := by
  refine .bracket rfl rfl (fun _ => Machine.raised_stepWith ..) (fun _ => rfl) (fun _ => rfl)
    hinner fun n n' hrel hstep => ?_
  obtain ⟨hrel, hstep⟩ := hL.leaveCall hm hrel hstep
  exact ⟨hrel, hL.mono (Set.empty_subset own) hstep⟩

end Lawful

end Lockstep

end Script

import Script.Proofs.Eval.Lockstep.Modules
import Script.Proofs.Eval.Programs
import Script.Proofs.Scope.Bindings

/-!
# A run beside itself

What holds of one run is said with the rules for two by letting it run beside itself: the machines
are the same, and an invariant is kept. For that it is enough to look at what the primitives do to a
machine, which is little, and at the brackets that a run leaves again.
-/

namespace Script

/-- What a primitive may do to a machine while only the given names are declared in its active
scope. -/
inductive Primitive (own : Set String) (m : Machine) : Machine → Prop
  | wrote (output : Sink) :
    Primitive own m (m.step fun s => { s with world := { s.world with output } })
  | warned (warning : Warning) :
    Primitive own m (m.step fun s => { s with world.warnings := s.world.warnings.push warning })
  | bound {name : String} {value : Value} {constant : Bool} {a : Arena} (hname : name ∈ own)
      (h : m.arena.bind m.active name value constant = .ok a) :
    Primitive own m (m.step fun s => { s with arena := a })
  | boundGlobal {name : String} {value : Value} {constant : Bool} {a : Arena}
      (h : m.arena.bind Arena.root name value constant = .ok a) :
    Primitive own m ((m.step fun s => { s with arena := a }).stepWith id id
      [.declaredGlobal name ⟨value.promote, constant⟩])
  | reassigned {name : String} {value : Value} {a : Arena}
      (h : m.arena.reassign m.active name value = .ok a) :
    Primitive own m (m.step fun s => { s with arena := a })
  | returned {f : UserFunction} {value : Value} {declared : DeclaredType}
      (htype : m.world.resultType? f = some declared) (hcheck : declared.check value = .ok ()) :
    Primitive own m (m.stepWith id id [.returned f value])
  | inferred {f : UserFunction} {value : Value} (htype : m.world.resultType? f = none) :
    Primitive own m (m.stepWith id
      (fun s => { s with world := s.world.infer f.id value.typeOf }) [.returned f value])
  | made {f : UserFunction} (hid : f.id = m.world.inferred.size) :
    Primitive own m (m.stepWith id
      (fun s => { s with world.inferred := s.world.inferred.push none }) [.made f])
  | raised (cause : Cause) : Primitive own m (m.raise cause)

/-- An invariant that the evaluator keeps, and what may happen meanwhile. -/
structure Guarded (Invariant : Machine → Prop) (Step : Set String → Machine → Machine → Prop) :
    Prop where
  refl : ∀ {m}, Step ∅ m m
  trans : ∀ {own m n k}, Step own m n → Step own n k → Step own m k
  mono : ∀ {own own' m n}, own ⊆ own' → Step own m n → Step own' m n
  primitive : ∀ {own m n}, Invariant m → Primitive own m n → Invariant n ∧ Step own m n
  enterScope : ∀ {m}, Invariant m → Invariant m.enterScope
  leaveScope : ∀ {m n}, Invariant m → Invariant n → Step .univ m.enterScope n →
    Invariant (m.leaveScope n) ∧ Step ∅ m (m.leaveScope n)
  enterCall : ∀ {m}, Invariant m → ∀ f, Invariant (m.enterCall f)
  leaveCall : ∀ {m n} {f : UserFunction}, Invariant m → Invariant n → Step ∅ (m.enterCall f) n →
    Invariant n.leaveCall ∧ Step ∅ m n.leaveCall

/-- An invariant that modules keep too. -/
structure GuardedModules (Invariant : Machine → Prop)
    (Step : Set String → Machine → Machine → Prop) : Prop extends Guarded Invariant Step where
  enterFile : ∀ {m}, Invariant m → ∀ location, Invariant (m.enterFile location)
  leaveFile : ∀ {m n} {location : Location}, Invariant m → Invariant n →
    Step ∅ (m.enterFile location) n → Invariant n.leaveFile ∧ Step ∅ m n.leaveFile
  fresh : ∀ {m}, Invariant m → Invariant m.fresh
  resume : ∀ {m n}, Invariant m → Invariant n → Step .univ m.fresh n →
    Invariant (m.resume n) ∧ Step ∅ m (m.resume n)

/-- A declaration warns first if it must. Then the name is bound, or else a cause is raised. -/
theorem Run.declare_ends (scope : ScopeId) (name : Identifier) (value : Value) (constant : Bool)
    (m : Machine) :
    ∃ n, (n = m ∨ ∃ warning,
        n = m.step fun s => { s with world.warnings := s.world.warnings.push warning }) ∧
      ((∃ cause, (m.arena.declare scope name value constant).2 = .error cause ∧
        declare scope name value constant m = .error (.failed (.ofCause cause)) (n.raise cause)) ∨
      ∃ a, m.arena.bind scope name.name value constant = .ok a ∧
        declare scope name value constant m = .ok () (n.step fun s => { s with arena := a })) := by
  unfold declare
  rw [Run.get_bind]
  rcases hdeclare : m.arena.declare scope name value constant with ⟨_ | warning, cause | declared⟩
  · exact ⟨m, .inl rfl, .inl ⟨cause, rfl, rfl⟩⟩
  · exact ⟨m, .inl rfl, .inr ⟨_, Arena.bind_of_declare (by rw [hdeclare]), rfl⟩⟩
  · exact ⟨_, .inr ⟨warning, rfl⟩, .inl ⟨cause, rfl, rfl⟩⟩
  · exact ⟨_, .inr ⟨warning, rfl⟩, .inr ⟨_, Arena.bind_of_declare (by rw [hdeclare]), rfl⟩⟩

namespace Lockstep

/-- Both runs are one run, which keeps an invariant. -/
def alone (Invariant : Machine → Prop) (Step : Set String → Machine → Machine → Prop)
    (Gone : List Cause → Prop := fun _ => False) : Lockstep where
  Rel m m' := m' = m ∧ Invariant m
  Step := Step
  value := id
  Gone := Gone

variable {Invariant : Machine → Prop} {Step : Set String → Machine → Machine → Prop}
  {Gone : List Cause → Prop} {own : Set String} {m : Machine}

instance : (alone Invariant Step).Total := ⟨fun _ h => h⟩

instance : (alone Invariant Step Gone).Exact where
  not_left _ _ _ h := h
  displacement := rfl
  stops := rfl

theorem function_alone (f : UserFunction) : (alone Invariant Step Gone).function f = f :=
  function_of_exact f

theorem At.after {Q : α → α → Prop} {x x' : Run α}
    (h : (alone Invariant Step).At own Q x x' m m) :
    Invariant (x.after m) ∧ Step own m (x.after m) := by
  unfold Run.after
  obtain ⟨a, n, a', n', hx, -, ⟨-, hn⟩, hstep, -⟩ | ⟨stop, n, n', hx, -, ⟨-, hn⟩, hstep⟩ := h.ends
  · rw [hx]
    exact ⟨hn, hstep⟩
  · rw [hx]
    exact ⟨hn, hstep⟩

theorem map_id_except (result : Except ε α) : result.map id = result := by
  cases result <;> rfl

theorem contexts_alone (ctx : Context) : (alone Invariant Step Gone).Contexts ctx ctx :=
  .of_value rfl ctx

end Lockstep

namespace Guarded

open Lockstep

variable {Invariant : Machine → Prop} {Step : Set String → Machine → Machine → Prop}
  {Gone : List Cause → Prop} {own : Set String} {m : Machine} (h : Guarded Invariant Step)

include h

theorem steady : (alone Invariant Step Gone).Steady where
  toStopping := .of_exact
  refl := h.refl
  trans := h.trans
  mono := h.mono
  raised := by
    rintro _ m ⟨rfl, hm⟩ cause
    obtain ⟨hn, hstep⟩ := h.primitive hm (.raised cause)
    exact ⟨⟨rfl, hn⟩, hstep⟩

theorem update {f : State → State} (hm : Invariant m) (hf : Primitive own m (m.step f)) :
    (alone Invariant Step Gone).At own Ended (Run.update f) (Run.update f) m m :=
  .update ⟨rfl, (h.primitive hm hf).1⟩ (h.primitive hm hf).2

theorem record {event : Event} {f : State → State} (hm : Invariant m)
    (hf : Primitive own m (m.stepWith id f [event])) :
    (alone Invariant Step Gone).At own Ended (Run.record event f) (Run.record event f) m m :=
  .record ⟨rfl, (h.primitive hm hf).1⟩ (h.primitive hm hf).2

theorem updateArena {f : Arena → Except Cause Arena} (hm : Invariant m)
    (hf : ∀ a, f m.arena = .ok a → Primitive own m (m.step fun s => { s with arena := a })) :
    (alone Invariant Step Gone).At own Ended (Run.updateArena f) (Run.updateArena f) m m :=
  h.steady.updateArena ⟨rfl, hm⟩ (map_id_except _).symm fun a ha =>
    ⟨⟨rfl, (h.primitive hm (hf a ha)).1⟩, (h.primitive hm (hf a ha)).2⟩

theorem callNative (f : Native) (arguments : List Value) (hm : Invariant m) :
    (alone Invariant Step Gone).At ∅ (alone Invariant Step Gone).Valued
      (Run.callNative f arguments) (Run.callNative f arguments) m m := by
  unfold Run.callNative
  split
  · exact h.steady.outOfFuel ⟨rfl, hm⟩
  · refine .get (h.steady.bind (Q := Ended) (h.update hm (.wrote _)) fun _ _ _ _ hn _ => ?_)
    exact h.steady.ofExcept_value hn (map_id_except _).symm

theorem declare_ends (own : Set String) (hm : Invariant m) (scope : ScopeId) (name : Identifier)
    (value : Value) (constant : Bool) :
    ∃ n, Invariant n ∧ Step own m n ∧ n.active = m.active ∧
      ((∃ cause, Run.declare scope name value constant m =
        .error (.failed (.ofCause cause)) (n.raise cause)) ∨
      ∃ a, n.arena.bind scope name.name value constant = .ok a ∧
        Run.declare scope name value constant m =
          .ok () (n.step fun s => { s with arena := a })) := by
  obtain ⟨n, rfl | ⟨warning, rfl⟩, hends⟩ := Run.declare_ends scope name value constant m
  · refine ⟨n, hm, h.mono (Set.empty_subset own) h.refl, rfl, ?_⟩
    exact hends.imp_left fun ⟨cause, _, hdeclare⟩ => ⟨cause, hdeclare⟩
  · obtain ⟨hn, hstep⟩ : Invariant _ ∧ Step own m _ := h.primitive hm (.warned warning)
    refine ⟨_, hn, hstep, rfl, ?_⟩
    exact hends.imp_left fun ⟨cause, _, hdeclare⟩ => ⟨cause, hdeclare⟩

theorem declare (hm : Invariant m) (name : Identifier) (value : Value) (constant : Bool) :
    (alone Invariant Step Gone).At {name.name} Ended (Run.declare m.active name value constant)
      (Run.declare m.active name value constant) m m := by
  obtain ⟨n, hn, hstep, hactive, ⟨cause, hdeclare⟩ | ⟨a, hbind, hdeclare⟩⟩ :=
    h.declare_ends {name.name} hm m.active name value constant
  · obtain ⟨hk, hraise⟩ := h.primitive hn (.raised cause)
    exact .of_error _ hdeclare hdeclare ⟨rfl, hk⟩ (h.trans hstep hraise)
  · rw [← hactive] at hbind
    obtain ⟨hk, hbound⟩ := h.primitive hn (.bound (Set.mem_singleton _) hbind)
    exact .of_ok hdeclare hdeclare ⟨rfl, hk⟩ (h.trans hstep hbound) trivial

theorem declareGlobal (hm : Invariant m) (name : Identifier) (value : Value) (constant : Bool) :
    (alone Invariant Step Gone).At ∅ Ended (Run.declareGlobal name value constant)
      (Run.declareGlobal name value constant) m m := by
  obtain ⟨n, hn, hstep, -, ⟨cause, hdeclare⟩ | ⟨a, hbind, hdeclare⟩⟩ :=
    h.declare_ends ∅ hm Arena.root name value constant
  · obtain ⟨hk, hraise⟩ := h.primitive hn (.raised cause)
    have hglobal := Run.bind_of_error (f := fun _ =>
      Run.record (.declaredGlobal name.name ⟨value.promote, constant⟩) id) hdeclare
    exact .of_error _ hglobal hglobal ⟨rfl, hk⟩ (h.trans hstep hraise)
  · obtain ⟨hk, hbound⟩ := h.primitive hn (.boundGlobal hbind)
    have hglobal := Run.bind_of_ok (f := fun _ =>
      Run.record (.declaredGlobal name.name ⟨value.promote, constant⟩) id) hdeclare
    exact .of_ok hglobal hglobal ⟨rfl, hk⟩ (h.trans hstep hbound) trivial

theorem checkResult (hm : Invariant m) (f : UserFunction) (value : Value) :
    (alone Invariant Step Gone).At ∅ Ended (Run.checkResult f value) (Run.checkResult f value)
      m m := by
  apply At.get
  cases htype : m.world.resultType? f with
  | none =>
    rw [Machine.resultType?, htype]
    exact h.record hm (.inferred htype)
  | some declared =>
    rw [Machine.resultType?, htype]
    dsimp only
    cases hcheck : declared.check value with
    | error cause =>
      exact h.steady.bind (Q := fun _ _ => False) (h.steady.raise ⟨rfl, hm⟩ cause) nofun
    | ok _ => exact h.record hm (.returned htype hcheck)

/-- What the primitives keep, a program keeps that runs beside itself. -/
theorem lawful : (alone Invariant Step Gone).LawfulTopLevels where
  toSteady := h.steady
  transparent := transparent_id
  active hm := by rw [hm.1]
  depth hm := by rw [hm.1]
  lookup := by
    rintro _ m ⟨rfl, -⟩ scope name
    exact (map_id_except _).symm
  callNative f arguments _ := by
    rintro _ m ⟨rfl, hm⟩
    change (alone Invariant Step Gone).At ∅ _ _ (Run.callNative f (arguments.map id)) _ _
    rw [List.map_id]
    exact h.callNative f arguments hm
  declare := by
    rintro _ m ⟨rfl, hm⟩ name value constant
    exact h.declare hm name value constant
  declareGlobal name value constant := by
    rintro _ m ⟨rfl, hm⟩
    exact h.declareGlobal hm name value constant
  reassign name value := by
    rintro _ m ⟨rfl, hm⟩
    exact .get (h.updateArena hm fun _ => .reassigned)
  bindParameter := by
    rintro _ m ⟨rfl, hm⟩ name value
    exact h.updateArena hm fun _ => .bound (Set.mem_singleton _)
  checkResult f value := by
    rintro _ m ⟨rfl, hm⟩
    rw [function_alone]
    exact h.checkResult hm f value
  enterScope := by
    rintro _ m ⟨rfl, hm⟩
    exact ⟨rfl, h.enterScope hm⟩
  leaveScope := by
    rintro _ m _ n ⟨rfl, hm⟩ ⟨rfl, hn⟩ hstep
    exact ⟨⟨rfl, (h.leaveScope hm hn hstep).1⟩, (h.leaveScope hm hn hstep).2⟩
  enterCall := by
    rintro _ m ⟨rfl, hm⟩ f
    rw [function_alone]
    exact ⟨rfl, h.enterCall hm f⟩
  leaveCall := by
    rintro _ m _ n f ⟨rfl, hm⟩ ⟨rfl, hn⟩ hstep
    exact ⟨⟨rfl, (h.leaveCall hm hn hstep).1⟩, (h.leaveCall hm hn hstep).2⟩
  makeFunction name parameters returns body position := by
    rintro _ m ⟨rfl, hm⟩
    have hparameters : (parameters.map fun p => (p.1.move .id, p.2)) = parameters :=
      List.map_id parameters
    rw [Exact.displacement, hparameters, Block.move_id]
    refine .get (h.steady.bind (h.record hm (.made rfl)) fun _ _ _ _ hn _ => h.steady.pure hn ?_)
    rw [function_alone]
    rfl

end Guarded

open Lockstep in
/-- What modules keep as well, a program keeps that runs beside itself. -/
theorem GuardedModules.lawful {Invariant : Machine → Prop}
    {Step : Set String → Machine → Machine → Prop} {Gone : List Cause → Prop}
    (h : GuardedModules Invariant Step) : (alone Invariant Step Gone).LawfulModules := .of_exact {
  toLawfulTopLevels := h.toGuarded.lawful
  loading hm := by rw [hm.1]
  lookupLocal := by
    rintro _ m ⟨rfl, -⟩ name
    change _ = (m.arena.lookupLocal Arena.root name).map (Option.map id)
    rw [Option.map_id, map_id_except]
  enterFile := by
    rintro _ m ⟨rfl, hm⟩ location
    exact ⟨rfl, h.enterFile hm location⟩
  leaveFile := by
    rintro _ m _ n location ⟨rfl, hm⟩ ⟨rfl, hn⟩ hstep
    exact ⟨⟨rfl, (h.leaveFile hm hn hstep).1⟩, (h.leaveFile hm hn hstep).2⟩
  fresh := by
    rintro _ m ⟨rfl, hm⟩
    exact ⟨rfl, h.fresh hm⟩
  resume := by
    rintro _ m _ n ⟨rfl, hm⟩ ⟨rfl, hn⟩ hstep
    exact ⟨⟨rfl, (h.resume hm hn hstep).1⟩, (h.resume hm hn hstep).2⟩ }

end Script

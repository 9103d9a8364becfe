import Script.Proofs.Eval.Inferred
import Script.Proofs.Value.Origins

/-!
# Where functions come from

A function in a value is from the library or was made in the run. At a moment of which that holds
for all that is bound, it holds for what expressions give and for all that is bound later: only a
declaration of a function makes one, and what is bound is a value that was computed, or was found in
the library or in another module.
-/

namespace Script

open Machine

/-- The functions in the exports of a library. -/
def Library.functions (library : Library) : Set UserFunction :=
  { f | ∃ module exports, library.module? module = some exports ∧
    ∃ entry ∈ exports, entry.2.Holds f }

/-! ### Arenas -/

namespace Arena

variable {a b : Arena} {K : Set UserFunction}

/-- All functions in what is bound belong to the set. -/
def Over (K : Set UserFunction) (a : Arena) : Prop :=
  ∀ name id binding, a.binding? name id = some binding → binding.value.Over K

theorem Over.mono {K' : Set UserFunction} (h : a.Over K) (hK : K ⊆ K') : a.Over K' :=
  fun name id binding hbinding => (h name id binding hbinding).mono hK

theorem Over.of_bound (h : a.Over K) {name : String} {target : ScopeId} {value : Value}
    {constant : Bool} (hvalue : value.Over K) (hb : ∀ other id, b.binding? other id =
      if id = target ∧ other = name then some ⟨value.promote, constant⟩ else a.binding? other id) :
    b.Over K := by
  intro other id binding hbinding
  rw [hb] at hbinding
  split at hbinding
  · cases hbinding
    exact Value.over_promote.2 hvalue
  · exact h other id binding hbinding

theorem Over.create (h : a.Over K) (ht : a.Tidy) (parent : Option ScopeId) :
    (a.create parent).2.Over K :=
  fun name id binding hbinding => h name id binding (binding?_of_create ht hbinding)

theorem Over.release (h : a.Over K) (id : ScopeId) : (a.release id).Over K :=
  fun name other binding hbinding => h name other binding (binding?_of_release hbinding)

theorem over_withRoot : withRoot.Over K := by
  intro name id binding hbinding
  have hempty := binding?_of_create tidy_empty hbinding
  simp [binding?] at hempty

theorem Over.lookup (h : a.Over K) {id : ScopeId} {name : String} {value : Value}
    (hlookup : a.lookup id name = .ok value) : value.Over K := by
  obtain ⟨t, rfl⟩ | ⟨other, binding, hbinding, rfl⟩ := value_of_lookup hlookup
  · exact Value.over_type t
  · exact h name other binding hbinding

end Arena

/-! ### Moments -/

namespace Moment

variable {library : Library} {x y : Moment}

/-- The functions that there are at a moment: those in the library and those made so far. -/
def functions (library : Library) (x : Moment) : Set UserFunction :=
  { f | f ∈ library.functions ∨ .made f ∈ x.events }

theorem functions_mono {later : List Event} (h : y.events = later ++ x.events) :
    x.functions library ⊆ y.functions library := by
  rintro f (hf | hf)
  · exact .inl hf
  · exact .inr (h ▸ List.mem_append_right _ hf)

/-- What is bound has been made of the functions that there are. -/
structure Grounded (library : Library) (x : Moment) : Prop where
  tidy : x.state.arena.Tidy
  bound : x.state.arena.Over (x.functions library)

end Moment

namespace Machine

variable {library : Library} {m n k : Machine}

/-- The functions that there are at the present moment. -/
noncomputable def functions (library : Library) (m : Machine) : Set UserFunction :=
  m.now.functions library

/-- A run has led from `m` to `n`. No function was lost, and what was bound at any moment has been
made of the functions that there were. -/
structure Leads (library : Library) (m n : Machine) : Prop where
  functions : m.functions library ⊆ n.functions library
  grounded : n.now.Grounded library
  moments : ∀ x ∈ n.moments, x ∈ m.moments ∨ x.Grounded library

theorem events_stepWith (m : Machine) (calls : List UserFunction → List UserFunction)
    (f : State → State) (events : List Event) :
    (m.stepWith calls f events).now.events = events ++ m.now.events := by
  rw [now_stepWith]

namespace Leads

theorem refl (hm : m.now.Grounded library) : m.Leads library m :=
  ⟨subset_rfl, hm, fun _ => .inl⟩

theorem trans (h : m.Leads library n) (h' : n.Leads library k) : m.Leads library k where
  functions := h.functions.trans h'.functions
  grounded := h'.grounded
  moments x hmem := (h'.moments x hmem).elim (h.moments x) .inr

variable {calls : List UserFunction → List UserFunction} {f : State → State} {events : List Event}

theorem stepWith (htidy : (f m.toState).arena.Tidy)
    (hover : (f m.toState).arena.Over ((m.stepWith calls f events).functions library)) :
    m.Leads library (m.stepWith calls f events) := by
  have hgrounded : (m.stepWith calls f events).now.Grounded library := by
    refine ⟨?_, hover⟩
    rw [now_stepWith]
    exact htidy
  refine ⟨Moment.functions_mono (events_stepWith ..), hgrounded, ?_⟩
  intro x hmem
  rw [moments_stepWith, ← now_stepWith, List.mem_cons] at hmem
  exact hmem.elim (fun hx => .inr (hx ▸ hgrounded)) .inl

/-- Whatever else a step does, it leaves what is bound as it is, or makes it of the functions that
there are. -/
theorem step (htidy : (f m.toState).arena.Tidy)
    (hover : (f m.toState).arena.Over (m.functions library)) :
    m.Leads library (m.stepWith calls f events) :=
  stepWith htidy (hover.mono (Moment.functions_mono (events_stepWith ..)))

theorem raise (hm : m.now.Grounded library) (cause : Cause) :
    m.Leads library (m.raise cause) := by
  refine ⟨?_, ?_, fun x hmem => .inl (moments_raise m cause ▸ hmem)⟩
  · rw [Machine.functions, Machine.functions, now_raise]
  · rwa [now_raise]

end Leads

end Machine

/-! ### Rules -/

/-- From `m` the run leads on, and its result is as `Q` says, given the functions that there are
then. -/
inductive Grounds (library : Library) (Q : Set UserFunction → α → Prop) (x : Run α) (m : Machine) :
    Prop
  | of_ok {a : α} {n : Machine} (hx : x m = .ok a n) (hleads : m.Leads library n)
    (h : Q (n.functions library) a)
  | of_error {stop : Stop} {n : Machine} (hx : x m = .error stop n) (hleads : m.Leads library n)

/-- The same from every machine on which all that is bound has been made of the functions that there
are. -/
def Run.Grounded (library : Library) (x : Run α) : Prop :=
  ∀ m : Machine, m.now.Grounded library → Grounds library (fun _ _ => True) x m

namespace Grounds

variable {library : Library} {P : Set UserFunction → β → Prop} {Q : Set UserFunction → α → Prop}
  {m n : Machine}

theorem bind {x : Run α} {f : α → Run β} (hx : Grounds library Q x m)
    (hf : ∀ a n, m.Leads library n → Q (n.functions library) a → Grounds library P (f a) n) :
    Grounds library P (x >>= f) m := by
  cases hx with
  | of_error hx hleads => exact .of_error (Run.bind_of_error hx) hleads
  | of_ok hx hleads h =>
    cases hf _ _ hleads h with
    | of_ok hy hleads' h' => exact .of_ok ((Run.bind_of_ok hx).trans hy) (hleads.trans hleads') h'
    | of_error hy hleads' => exact .of_error ((Run.bind_of_ok hx).trans hy) (hleads.trans hleads')

theorem leads_after {x : Run α} (hx : Grounds library Q x m) : m.Leads library (x.after m) := by
  cases hx with
  | of_ok hx hleads _ => rwa [Run.after_of_ok hx]
  | of_error hx hleads => rwa [Run.after_of_error hx]

theorem of_eq_ok {x : Run α} {a : α} (hx : Grounds library Q x m) (h : x m = .ok a n) :
    m.Leads library n ∧ Q (n.functions library) a := by
  cases hx with
  | of_ok hx hleads hQ =>
    cases h.symm.trans hx
    exact ⟨hleads, hQ⟩
  | of_error hx _ => cases h.symm.trans hx

theorem pure {a : α} (hm : m.now.Grounded library) (h : Q (m.functions library) a) :
    Grounds library Q (Pure.pure a) m :=
  .of_ok rfl (.refl hm) h

theorem get {f : Machine → Run α} (h : Grounds library Q (f m) m) :
    Grounds library Q (MonadState.get >>= f) m := by
  cases h with
  | of_ok hx hleads h => exact .of_ok hx hleads h
  | of_error hx hleads => exact .of_error hx hleads

theorem outOfFuel (hm : m.now.Grounded library) :
    Grounds library Q (throw .outOfFuel : Run α) m :=
  .of_error rfl (.refl hm)

theorem fail (hm : m.now.Grounded library) (e : Error) : Grounds library Q (Run.fail e) m :=
  .of_error rfl (.raise hm e.cause)

theorem raise (hm : m.now.Grounded library) (cause : Cause) :
    Grounds library Q (Run.raise cause) m :=
  fail hm (.ofCause cause)

theorem ofExcept {result : Except Cause α} (hm : m.now.Grounded library)
    (h : ∀ a, result = .ok a → Q (m.functions library) a) :
    Grounds library Q (Run.ofExcept result) m := by
  cases result with
  | ok a => exact pure hm (h a rfl)
  | error cause => exact raise hm cause

/-- A computation that goes through leaves the machine as it is. -/
theorem bindExcept {result : Except Cause α} {f : α → Run β} (hm : m.now.Grounded library)
    (hf : ∀ a, result = .ok a → Grounds library P (f a) m) :
    Grounds library P (Run.ofExcept result >>= f) m := by
  cases result with
  | ok a =>
    cases hf a rfl with
    | of_ok hx hleads h => exact .of_ok hx hleads h
    | of_error hx hleads => exact .of_error hx hleads
  | error cause => exact .of_error rfl (.raise hm cause)

theorem mapError {x : Run α} (hx : Grounds library Q x m) (f : Error → Error) :
    Grounds library Q (Run.mapError f x) m := by
  cases hx with
  | of_ok hx hleads h => exact .of_ok (Run.mapError_of_ok hx) hleads h
  | of_error hx hleads => exact .of_error (Run.mapError_of_error hx) hleads

theorem attributed {x : Run α} (hx : Grounds library Q x m) (ctx : Context) (stmt : Stmt) :
    Grounds library Q (Run.attributed ctx stmt x) m := by
  unfold Run.attributed
  split
  · exact hx
  · exact hx.mapError _

/-! ### Steps -/

theorem update {f : State → State} (htidy : (f m.toState).arena.Tidy)
    (hover : (f m.toState).arena.Over (m.functions library)) :
    Grounds library (fun _ _ => True) (Run.update f) m :=
  .of_ok rfl (.step htidy hover) trivial

theorem record {f : State → State} (hm : m.now.Grounded library) (event : Event)
    (hf : (f m.toState).arena = m.arena) :
    Grounds library (fun _ _ => True) (Run.record event f) m :=
  .of_ok rfl (.step (hf ▸ hm.tidy) (hf ▸ hm.bound)) trivial

theorem updateArena {f : Arena → Except Cause Arena} (hm : m.now.Grounded library)
    (hf : ∀ a, f m.arena = .ok a → Arena.SameShape m.arena a ∧ a.Over (m.functions library)) :
    Grounds library (fun _ _ => True) (Run.updateArena f) m := by
  apply get
  cases hresult : f m.arena with
  | error cause => exact raise hm cause
  | ok a =>
    obtain ⟨hshape, hover⟩ := hf a hresult
    exact update (hshape.tidy hm.tidy) hover

theorem lookup (hm : m.now.Grounded library) (name : String) :
    Grounds library Value.Over (Run.lookup name) m :=
  .get (.ofExcept hm fun _ => hm.bound.lookup)

theorem bindIn (hm : m.now.Grounded library) {value : Value}
    (hvalue : value.Over (m.functions library)) {scope : ScopeId} {name : String} {constant : Bool}
    {a : Arena} (h : m.arena.bind scope name value constant = .ok a) :
    Arena.SameShape m.arena a ∧ a.Over (m.functions library) :=
  ⟨Arena.sameShape_bind h, hm.bound.of_bound hvalue (Arena.binding?_bind h)⟩

theorem declare (hm : m.now.Grounded library) {value : Value}
    (hvalue : value.Over (m.functions library)) (scope : ScopeId) (name : Identifier)
    (constant : Bool) :
    Grounds library (fun _ _ => True) (Run.declare scope name value constant) m := by
  obtain ⟨n, hn, hends⟩ := Run.declare_ends scope name value constant m
  have hleads : m.Leads library n ∧ n.arena = m.arena := by
    obtain rfl | ⟨warning, rfl⟩ := hn
    · exact ⟨.refl hm, rfl⟩
    · exact ⟨.step hm.tidy hm.bound, rfl⟩
  obtain ⟨hleads, harena⟩ := hleads
  obtain ⟨cause, -, hdeclare⟩ | ⟨a, hbind, hdeclare⟩ := hends
  · exact .of_error hdeclare (hleads.trans (.raise hleads.grounded cause))
  · obtain ⟨hshape, hover⟩ := bindIn hm hvalue hbind
    exact .of_ok hdeclare (hleads.trans (.step (hshape.tidy hm.tidy) (hover.mono hleads.functions)))
      trivial

theorem declareGlobal (hm : m.now.Grounded library) {value : Value}
    (hvalue : value.Over (m.functions library)) (name : Identifier) (constant : Bool) :
    Grounds library (fun _ _ => True) (Run.declareGlobal name value constant) m :=
  .bind (declare hm hvalue _ _ _) fun _ _ hleads _ => .record hleads.grounded _ rfl

theorem reassign (hm : m.now.Grounded library) {value : Value}
    (hvalue : value.Over (m.functions library)) (name : String) :
    Grounds library (fun _ _ => True) (Run.reassign name value) m := by
  refine .get (.updateArena hm fun a h => ⟨Arena.sameShape_reassign h, ?_⟩)
  obtain ⟨_, _, -, -, hbound⟩ := Arena.binding?_reassign h
  exact hm.bound.of_bound hvalue hbound

theorem callNative (hm : m.now.Grounded library) (f : Native) {arguments : List Value}
    (harguments : ∀ argument ∈ arguments, argument.Over (m.functions library)) :
    Grounds library Value.Over (Run.callNative f arguments) m := by
  unfold Run.callNative
  split
  · exact .outOfFuel hm
  · apply get
    rcases hcall : f.call arguments m.world.output with ⟨result, output⟩
    refine .bind (.update hm.tidy hm.bound) fun _ n hleads _ => .ofExcept hleads.grounded ?_
    rintro value rfl
    exact (Native.over_call harguments hcall).mono hleads.functions

theorem checkResult (hm : m.now.Grounded library) (f : UserFunction) (value : Value) :
    Grounds library (fun _ _ => True) (Run.checkResult f value) m := by
  apply get
  split
  · exact .bindExcept hm fun _ _ => .record hm _ rfl
  · exact .record hm _ rfl

/-! ### Brackets -/

theorem bracket {x y : Run α} {first : Machine} {leave : Machine → Machine}
    (hy : y m = match x first with
      | .ok a n => .ok a (leave n)
      | .error stop n => .error stop (leave n))
    (hfirst : m.Leads library first) (hx : Grounds library Q x first)
    (hleave : ∀ n, n.now.Grounded library → n.Leads library (leave n) ∧
      (leave n).functions library = n.functions library) : Grounds library Q y m := by
  cases hx with
  | of_ok hx hleads h =>
    obtain ⟨hback, hfunctions⟩ := hleave _ hleads.grounded
    exact .of_ok (by rw [hy, hx]) (hfirst.trans (hleads.trans hback)) (hfunctions ▸ h)
  | of_error hx hleads =>
    have hback := (hleave _ hleads.grounded).1
    exact .of_error (by rw [hy, hx]) (hfirst.trans (hleads.trans hback))

theorem withScope {inner : Run α} (hm : m.now.Grounded library)
    (hinner : m.Leads library m.enterScope → Grounds library Q inner m.enterScope) :
    Grounds library Q (Run.withScope m.active inner) m := by
  have henter : m.Leads library m.enterScope := by
    unfold enterScope step
    exact .step (hm.tidy.create _) (hm.bound.create hm.tidy _)
  refine .bracket rfl henter (hinner henter) fun n hn => ⟨?_, ?_⟩
  · exact .step (hn.tidy.release _) (hn.bound.release _)
  · simp only [functions, now_step]
    rfl

theorem deeper {f : UserFunction} {inner : Run α} (hm : m.now.Grounded library)
    (hinner : m.Leads library (m.enterCall f) → Grounds library Q inner (m.enterCall f)) :
    Grounds library Q (Run.deeper f inner) m := by
  have henter : m.Leads library (m.enterCall f) := .step hm.tidy hm.bound
  refine .bracket rfl henter (hinner henter) fun n hn => ⟨.step hn.tidy hn.bound, ?_⟩
  simp only [functions, now_stepWith]
  rfl

end Grounds

/-! ### Expressions -/

/-- All functions in the values belong to the set. -/
def Value.AllOver (K : Set UserFunction) (values : List Value) : Prop :=
  ∀ value ∈ values, value.Over K

/-- Calls give values that are made of the functions that there are, if their arguments are. -/
def Caller.Grounded (library : Library) (call : Caller) : Prop :=
  ∀ f arguments (m : Machine), m.now.Grounded library →
    Value.AllOver (m.functions library) arguments →
    Grounds library Value.Over (call f arguments) m

section

variable {library : Library} {call : Caller} (hcall : call.Grounded library) {m : Machine}
  (hm : m.now.Grounded library)

include hcall hm

theorem grounds_callValue {callee : Value} (hcallee : callee.Over (m.functions library))
    {arguments : List Value} (harguments : Value.AllOver (m.functions library) arguments) :
    Grounds library Value.Over (callValue call callee arguments) m := by
  unfold callValue
  split
  · exact hcall _ _ _ hm harguments
  · exact .callNative hm _ harguments
  · exact .raise hm _

end

section

variable {library : Library} {call : Caller} {m : Machine}

theorem grounds_connect (op : Connective) {left right : Run Value}
    (hleft : Grounds library Value.Over left m)
    (hright : ∀ m : Machine, m.now.Grounded library → Grounds library Value.Over right m) :
    Grounds library Value.Over (connect op left right) m := by
  have hboolean (b : Bool) {m : Machine} (hm : m.now.Grounded library) :
      Grounds library Value.Over (pure (.boolean b)) m :=
    .pure hm (Value.over_boolean b)
  refine .bind hleft fun first n hleads _ => .bindExcept hleads.grounded fun holds _ => ?_
  split
  · exact hboolean _ hleads.grounded
  · exact hboolean _ hleads.grounded
  · exact .bind (hright n hleads.grounded) fun second k hleads _ =>
      .bindExcept hleads.grounded fun _ _ => hboolean _ hleads.grounded

mutual

/-- What an expression gives is made of the functions that there are. -/
theorem grounds_evaluate (hcall : call.Grounded library) : (expr : Expr) → {m : Machine} →
    m.now.Grounded library → Grounds library Value.Over (evaluate call expr) m
  | .number n _, _, hm => by
    rw [evaluate]
    exact .pure hm (Value.over_integer n)
  | .string s _, _, hm => by
    rw [evaluate]
    exact .pure hm (Value.over_string s)
  | .boolean b _, _, hm => by
    rw [evaluate]
    exact .pure hm (Value.over_boolean b)
  | .symbol name _, _, hm => by
    rw [evaluate]
    exact .lookup hm name
  | .list elements _, _, hm => by
    rw [evaluate]
    exact .bind (grounds_evaluateAll hcall elements hm) fun _ _ hleads hvalues =>
      .pure hleads.grounded ((Value.over_list _).2 hvalues)
  | .binary left operator right _, _, hm => by
    rw [evaluate]
    split
    · exact grounds_connect _ (grounds_evaluate hcall left hm)
        fun _ hm => grounds_evaluate hcall right hm
    · refine .bind (grounds_evaluate hcall left hm) fun first n hleads hfirst => ?_
      refine .bind (grounds_evaluate hcall right hleads.grounded) fun second n hleads hsecond => ?_
      refine .ofExcept hleads.grounded fun value hvalue => ?_
      exact Operation.over_apply (Value.over_promote.2 (hfirst.mono hleads.functions))
        (Value.over_promote.2 hsecond) hvalue
  | .unary operator operand _, _, hm => by
    rw [evaluate]
    exact .bind (grounds_evaluate hcall operand hm) fun _ _ hleads _ =>
      .ofExcept hleads.grounded fun _ => UnaryOp.over_apply
  | .call callee arguments _, _, hm => by
    rw [evaluate]
    refine .bind (grounds_evaluate hcall callee hm) fun f n hleads hf => ?_
    refine .bind (grounds_evaluateAll hcall arguments hleads.grounded)
      fun values n hleads hvalues => ?_
    exact grounds_callValue hcall hleads.grounded (hf.mono hleads.functions) hvalues
  | .index target index _, _, hm => by
    rw [evaluate]
    refine .bind (grounds_evaluate hcall target hm) fun value n hleads hvalue => ?_
    refine .bind (grounds_evaluate hcall index hleads.grounded) fun i n hleads _ => ?_
    refine .bindExcept hleads.grounded fun position _ => ?_
    exact .ofExcept hleads.grounded fun item =>
      Value.over_get (Value.over_promote.2 (hvalue.mono hleads.functions))

theorem grounds_evaluateAll (hcall : call.Grounded library) : (exprs : List Expr) →
    {m : Machine} → m.now.Grounded library →
    Grounds library Value.AllOver (evaluateAll call exprs) m
  | [], _, hm => by
    rw [evaluateAll]
    exact .pure hm nofun
  | expr :: exprs, _, hm => by
    rw [evaluateAll]
    refine .bind (grounds_evaluate hcall expr hm) fun value n hleads hvalue => ?_
    refine .bind (grounds_evaluateAll hcall exprs hleads.grounded)
      fun values n hleads hvalues => ?_
    refine .pure hleads.grounded (List.forall_mem_cons.2 ⟨?_, hvalues⟩)
    exact Value.over_promote.2 (hvalue.mono hleads.functions)

end

theorem grounded_evaluateCondition (hcall : call.Grounded library) (expr : Expr) :
    (evaluateCondition call expr).Grounded library := fun _ hm =>
  .bind (grounds_evaluate hcall expr hm) fun _ _ hleads _ =>
    .ofExcept hleads.grounded fun _ _ => trivial

theorem grounded_resolve (ascription : TypeExpr) : (resolve ascription).Grounded library := by
  induction ascription with
  | named name position =>
    refine fun m hm => .get ?_
    split
    · exact .pure hm trivial
    · exact .raise hm _
  | listOf element ih =>
    exact fun m hm => .bind (ih m hm) fun _ _ hleads _ => .pure hleads.grounded trivial

theorem grounded_resolve? (ascription : Option TypeExpr) :
    (resolve? ascription).Grounded library := by
  intro m hm
  cases ascription with
  | none => exact .pure hm trivial
  | some ascription =>
    exact .bind (grounded_resolve ascription m hm) fun _ _ hleads _ => .pure hleads.grounded trivial

end

/-! ### Statements -/

/-- What is returned, if something is, has functions of the set alone. -/
def Flow.Over (K : Set UserFunction) : Flow → Prop
  | .next => True
  | .returned value => value.Over K

section

variable {library : Library} {call : Caller} {m : Machine}

theorem grounds_repeatWhile {condition : Run Bool} {body : Run Flow}
    (hcondition : condition.Grounded library)
    (hbody : ∀ m : Machine, m.now.Grounded library → Grounds library Flow.Over body m) (fuel : Nat)
    (hm : m.now.Grounded library) :
    Grounds library Flow.Over (repeatWhile condition body fuel) m := by
  induction fuel generalizing m with
  | zero => exact .outOfFuel hm
  | succ fuel ih =>
    rw [repeatWhile_succ]
    refine .bind (hcondition m hm) fun holds n hleads _ => ?_
    split
    · refine .bind (hbody n hleads.grounded) fun flow n hleads hflow => ?_
      cases flow with
      | next => exact ih hleads.grounded
      | returned value => exact .pure hleads.grounded hflow
    · exact .pure hleads.grounded trivial

theorem grounded_runDeclaration (hcall : call.Grounded library) (name : Identifier)
    (constant global : Bool) (ascription : Option TypeExpr) (value : Expr) :
    (runDeclaration call name constant global ascription value).Grounded library := by
  have hdeclare (value : Value) {m : Machine} (hm : m.now.Grounded library)
      (hvalue : value.Over (m.functions library)) : Grounds library (fun _ _ => True)
        (if global then Run.declareGlobal name value constant
          else do Run.declare (← get).active name value constant) m := by
    split
    · exact .declareGlobal hm hvalue _ _
    · exact .get (.declare hm hvalue _ _ _)
  intro m hm
  rw [runDeclaration]
  refine .bind (grounds_evaluate hcall value hm) fun value n hleads hvalue => ?_
  replace hvalue := Value.over_promote.2 hvalue
  cases ascription with
  | none => exact hdeclare _ hleads.grounded hvalue
  | some ascription =>
    refine .bind (grounded_resolve ascription n hleads.grounded) fun declared k hleads _ => ?_
    exact .bindExcept hleads.grounded fun _ _ =>
      hdeclare _ hleads.grounded (hvalue.mono hleads.functions)

theorem grounded_runReassignment (hcall : call.Grounded library) (name : Identifier)
    (value : Expr) : (runReassignment call name value).Grounded library := fun _ hm =>
  .bind (grounds_evaluate hcall value hm) fun _ _ hleads hvalue =>
    .reassign hleads.grounded hvalue _

theorem grounds_runReturn (hcall : call.Grounded library) (f : UserFunction)
    (value : Option Expr) (hm : m.now.Grounded library) :
    Grounds library Flow.Over (runReturn call f value) m := by
  have hrest (value : Value) {m : Machine} (hm : m.now.Grounded library)
      (hvalue : value.Over (m.functions library)) : Grounds library Flow.Over (do
        Run.checkResult f value
        return Flow.returned value) m :=
    .bind (.checkResult hm f value) fun _ _ hleads _ =>
      .pure hleads.grounded (hvalue.mono hleads.functions)
  cases value with
  | none => exact hrest .void hm Value.over_void
  | some expr =>
    rw [runReturn_some]
    exact .bind (grounds_evaluate hcall expr hm) fun value _ hleads hvalue =>
      hrest value.promote hleads.grounded (Value.over_promote.2 hvalue)

section

variable {ctx : Context} {fuel : Nat} {f : UserFunction}

theorem grounds_next {x : Run Unit} (hx : x.Grounded library) (hm : m.now.Grounded library) :
    Grounds library Flow.Over (do x; return .next) m :=
  .bind (hx m hm) fun _ _ hleads _ => .pure hleads.grounded trivial

mutual

theorem grounds_runStmt (hcall : call.Grounded library) : (stmt : Stmt) → {m : Machine} →
    m.now.Grounded library → Grounds library Flow.Over (runStmt ctx call fuel f stmt) m
  | .declaration .., _, hm => by
    rw [runStmt]
    exact grounds_next (grounded_runDeclaration hcall _ _ _ _ _) hm
  | .reassignment .., _, hm => by
    rw [runStmt]
    exact grounds_next (grounded_runReassignment hcall _ _) hm
  | .returnValue value _, _, hm => by
    rw [runStmt]
    exact grounds_runReturn hcall f value hm
  | .expression value _, _, hm => by
    rw [runStmt]
    exact .bind (grounds_evaluate hcall value hm) fun _ _ hleads _ => .pure hleads.grounded trivial
  | .conditional branch, _, hm => by
    rw [runStmt]
    exact grounds_runConditional hcall branch hm
  | .loop condition body _, _, hm => by
    rw [runStmt]
    exact grounds_repeatWhile (grounded_evaluateCondition hcall condition)
      (fun _ hm => grounds_runBlock hcall body hm) fuel hm
  | .importNames .., _, hm => by
    rw [runStmt]
    exact .raise hm _
  | .function .., _, hm => by
    rw [runStmt]
    exact .raise hm _

theorem grounds_runConditional (hcall : call.Grounded library) : (branch : Conditional) →
    {m : Machine} → m.now.Grounded library →
    Grounds library Flow.Over (runConditional ctx call fuel f branch) m
  | .mk condition body otherwise _, m, hm => by
    rw [runConditional]
    refine .bind (grounded_evaluateCondition hcall condition m hm) fun holds n hleads _ => ?_
    split
    · exact grounds_runBlock hcall body hleads.grounded
    · exact grounds_runOtherwise hcall otherwise hleads.grounded

theorem grounds_runOtherwise (hcall : call.Grounded library) : (otherwise : Otherwise) →
    {m : Machine} → m.now.Grounded library →
    Grounds library Flow.Over (runOtherwise ctx call fuel f otherwise) m
  | .nothing, _, hm => by
    rw [runOtherwise]
    exact .pure hm trivial
  | .block body, _, hm => by
    rw [runOtherwise]
    exact grounds_runBlock hcall body hm
  | .conditional branch, _, hm => by
    rw [runOtherwise]
    exact grounds_runConditional hcall branch hm

theorem grounds_runBlock (hcall : call.Grounded library) : (block : Block) → {m : Machine} →
    m.now.Grounded library → Grounds library Flow.Over (runBlock ctx call fuel f block) m
  | .mk statements _, _, hm => by
    rw [runBlock]
    exact .get (.withScope hm fun hleads => grounds_runStmts hcall statements hleads.grounded)

theorem grounds_runStmts (hcall : call.Grounded library) : (stmts : List Stmt) → {m : Machine} →
    m.now.Grounded library → Grounds library Flow.Over (runStmts ctx call fuel f stmts) m
  | [], _, hm => by
    rw [runStmts]
    exact .pure hm trivial
  | stmt :: stmts, _, hm => by
    rw [runStmts]
    refine .bind (.attributed (grounds_runStmt hcall stmt hm) _ _) fun flow n hleads hflow => ?_
    cases flow with
    | next => exact grounds_runStmts hcall stmts hleads.grounded
    | returned value => exact .pure hleads.grounded hflow

end

end

/-! ### Calls -/

theorem grounds_bindParameters (parameters : List (Identifier × Option DeclaredType))
    {arguments : List Value} (hm : m.now.Grounded library)
    (harguments : Value.AllOver (m.functions library) arguments) :
    Grounds library (fun _ _ => True) (bindParameters parameters arguments) m := by
  fun_induction bindParameters parameters arguments generalizing m with
  | case1 name type parameters argument arguments ih =>
    obtain ⟨hargument, hrest⟩ := List.forall_mem_cons.1 harguments
    refine .get (.bind (.updateArena hm fun a h => Grounds.bindIn hm hargument h)
      fun _ n hleads _ => ih hleads.grounded fun value hmem => ?_)
    exact (hrest value hmem).mono hleads.functions
  | case2 => exact .pure hm trivial

theorem grounds_resultOf (f : UserFunction) {flow : Flow} (hm : m.now.Grounded library)
    (hflow : flow.Over (m.functions library)) :
    Grounds library Value.Over (resultOf f flow) m := by
  unfold resultOf
  split
  · exact .pure hm hflow
  · split
    · exact .bindExcept hm fun _ _ => .pure hm Value.over_void
    · exact .pure hm Value.over_void

end

/-- A function gives a value that is made of the functions that there are. -/
theorem grounded_callFunction (library : Library) (ctx : Context) (fuel : Nat) :
    Caller.Grounded library (callFunction ctx fuel) := by
  induction fuel with
  | zero => exact fun f arguments m hm _ => .outOfFuel hm
  | succ fuel ih =>
    intro f arguments m hm harguments
    rw [callFunction]
    refine .bindExcept hm fun _ _ => .get ?_
    split
    · exact .bind (Q := fun _ _ => False) (.raise hm _) fun _ _ _ h => h.elim
    · refine .bind (Q := Flow.Over) (.deeper hm fun hcall => ?_)
        fun flow k hleads hflow => grounds_resultOf f hleads.grounded hflow
      refine .withScope hcall.grounded fun hscope => ?_
      refine .bind (grounds_bindParameters _ hscope.grounded fun value hmem => ?_)
        fun _ k hleads _ => grounds_runStmts ih _ hleads.grounded
      exact ((harguments value hmem).mono hcall.functions).mono hscope.functions

end Script

import Mathlib.Data.List.Chain
import Script.Proofs.Eval.Lockstep.Alone
import Script.Proofs.Scope.Bindings

/-!
# What is inferred in a run

All that the calls of a function share is the type that has been inferred for its results. From one
moment of a run to the next at most one thing is done, and what it does to the inferred types is
told by what it is. So the history of a run determines what is inferred at each of its moments, on
whatever machine.
-/

namespace Script

open Lockstep

/-- The type of the value with which an event ended a call of a function without a declared type. -/
def Event.result? (id : Nat) : Event → Option ValueType
  | .declaredGlobal .. | .made _ => none
  | .returned f value => if f.id = id ∧ f.returns = none then some value.typeOf else none

/-- The results of the function have a type, and the value is of it. -/
def World.Accepts (w : World) (f : UserFunction) (value : Value) : Prop :=
  ∃ declared, w.resultType? f = some declared ∧ declared.accepts value

/-- When an event may happen, and what is inferred after it. -/
def Event.Effect (before after : World) : Event → Prop
  | .declaredGlobal .. => after.inferred = before.inferred
  | .made f => f.id = before.inferred.size ∧ after.inferred = before.inferred.push none
  | .returned f value =>
    before.Accepts f value ∧ after.inferred = before.inferred ∨
      before.resultType? f = none ∧ after.inferred = (before.infer f.id value.typeOf).inferred

namespace World

variable {w before after : World} {f : UserFunction} {value : Value} {declared : DeclaredType}
  {event : Event}

theorem inferred?_congr (h : after.inferred = before.inferred) (id : Nat) :
    after.inferred? id = before.inferred? id := by
  rw [inferred?, h, inferred?]

theorem resultType?_of_declared (h : f.returns = some declared) :
    w.resultType? f = some declared := by
  rw [resultType?, h, Option.some_or]

theorem resultType?_of_inferred (h : f.returns = none) :
    w.resultType? f = (w.inferred? f.id).map .exactly := by
  rw [resultType?, h, Option.none_or]

theorem resultType?_eq_none :
    w.resultType? f = none ↔ f.returns = none ∧ w.inferred? f.id = none := by
  simp [resultType?]

namespace Accepts

theorem accepts_declared (h : w.Accepts f value) (hf : f.returns = some declared) :
    declared.accepts value := by
  obtain ⟨other, htype, haccepts⟩ := h
  rw [resultType?_of_declared hf, Option.some.injEq] at htype
  exact htype ▸ haccepts

theorem inferred?_eq (h : w.Accepts f value) (hf : f.returns = none) :
    w.inferred? f.id = some value.typeOf := by
  obtain ⟨other, htype, haccepts⟩ := h
  rw [resultType?_of_inferred hf, Option.map_eq_some_iff] at htype
  obtain ⟨t, hinferred, rfl⟩ := htype
  rw [hinferred, eq_of_beq haccepts]

theorem of_inferred? (hf : f.returns = none) (h : w.inferred? f.id = some value.typeOf) :
    w.Accepts f value :=
  ⟨.exactly value.typeOf, by rw [resultType?_of_inferred hf, h, Option.map_some],
    beq_self_eq_true _⟩

theorem mono (h : before.Accepts f value)
    (hkept : ∀ id t, before.inferred? id = some t → after.inferred? id = some t) :
    after.Accepts f value := by
  cases hf : f.returns with
  | some declared => exact ⟨declared, resultType?_of_declared hf, h.accepts_declared hf⟩
  | none => exact of_inferred? hf (hkept _ _ (h.inferred?_eq hf))

end Accepts

end World

/-! ### One step -/

namespace Event.Effect

variable {before after : World} {event : Event}

theorem inferred?_eq (h : event.Effect before after) (id : Nat) :
    after.inferred? id = (before.inferred? id).or (event.result? id) := by
  cases event with
  | declaredGlobal name binding =>
    rw [World.inferred?_congr h, Event.result?, Option.or_none]
  | made f =>
    have hpush : after.inferred =
        { before with inferred := before.inferred.push none }.inferred := h.2
    rw [World.inferred?_congr hpush, World.inferred?_push, Event.result?, Option.or_none]
  | returned f value =>
    obtain ⟨haccepts, hinferred⟩ | ⟨htype, hinferred⟩ := h
    · rw [World.inferred?_congr hinferred, Event.result?]
      split
      · next hf =>
        obtain ⟨rfl, hf⟩ := hf
        rw [haccepts.inferred?_eq hf, Option.some_or]
      · rw [Option.or_none]
    · obtain ⟨hf, hnone⟩ := World.resultType?_eq_none.1 htype
      rw [World.inferred?_congr hinferred, World.inferred?_infer, Event.result?]
      by_cases hid : id = f.id
      · subst hid
        simp [hf, hnone]
      · simp [hid, Ne.symm hid]

theorem inferred?_mono (h : event.Effect before after) {id : Nat} {t : ValueType}
    (ht : before.inferred? id = some t) : after.inferred? id = some t := by
  rw [h.inferred?_eq, ht, Option.some_or]

theorem size_le (h : event.Effect before after) : before.inferred.size ≤ after.inferred.size := by
  cases event with
  | declaredGlobal name binding => exact (congrArg Array.size h).ge
  | made f => rw [h.2, Array.size_push]; omega
  | returned f value =>
    obtain ⟨-, hinferred⟩ | ⟨-, hinferred⟩ := h
    · exact (congrArg Array.size hinferred).ge
    · rw [hinferred]
      exact World.size_infer before f.id value.typeOf ▸ Nat.le_max_left ..

theorem accepts {f : UserFunction} {value : Value}
    (h : (Event.returned f value).Effect before after) : after.Accepts f value := by
  obtain ⟨haccepts, -⟩ | ⟨htype, -⟩ := id h
  · exact haccepts.mono fun _ _ => h.inferred?_mono
  · obtain ⟨hf, hnone⟩ := World.resultType?_eq_none.1 htype
    refine .of_inferred? hf ?_
    rw [h.inferred?_eq, hnone, Event.result?, if_pos ⟨rfl, hf⟩, Option.none_or]

end Event.Effect

namespace Moment

/-- The type that has been inferred for the results of a function. -/
def inferred? (x : Moment) (id : Nat) : Option ValueType :=
  x.state.world.inferred? id

/-- What is inferred at the earlier moment is so at the later one. -/
def Kept (earlier later : Moment) : Prop :=
  ∀ id t, earlier.inferred? id = some t → later.inferred? id = some t

/-- What may come right after a moment: at most one thing is done, and nothing else is inferred. -/
inductive Next (x y : Moment) : Prop
  | quiet (events : y.events = x.events)
    (inferred : y.state.world.inferred = x.state.world.inferred)
  | done (event : Event) (events : y.events = event :: x.events)
    (effect : event.Effect x.state.world y.state.world)

variable {x y z : Moment}

theorem Kept.trans (h : x.Kept y) (h' : y.Kept z) : x.Kept z :=
  fun id t ht => h' id t (h id t ht)

theorem Next.kept (h : x.Next y) : x.Kept y := by
  intro id t ht
  cases h with
  | quiet _ hinferred => exact (World.inferred?_congr hinferred id).trans ht
  | done event _ heffect => exact heffect.inferred?_mono ht

theorem Next.size_le (h : x.Next y) :
    x.state.world.inferred.size ≤ y.state.world.inferred.size := by
  cases h with
  | quiet _ hinferred => exact (congrArg Array.size hinferred).ge
  | done event _ heffect => exact heffect.size_le

/-- All values that were returned are of the types that the results of their functions have. -/
def Consistent (x : Moment) : Prop :=
  ∀ f value, .returned f value ∈ x.events → x.state.world.Accepts f value

theorem Next.consistent (h : x.Next y) (hx : x.Consistent) : y.Consistent := by
  intro f value hmem
  have hold (hmem : .returned f value ∈ x.events) : y.state.world.Accepts f value :=
    (hx f value hmem).mono h.kept
  cases h with
  | quiet hevents _ =>
    rw [hevents] at hmem
    exact hold hmem
  | done event hevents heffect =>
    rw [hevents, List.mem_cons] at hmem
    obtain rfl | hmem := hmem
    · exact heffect.accepts
    · exact hold hmem

/-- Between two moments a type is inferred, by the first `return` that ends a call of its
function. -/
structure Infers (earlier later : Moment) (id : Nat) : Prop where
  unknown : earlier.inferred? id = none
  first : ∀ f value, .returned f value ∈ earlier.events → f.id = id → f.returns ≠ none
  written : ∃ f value, later.events = .returned f value :: earlier.events ∧ f.id = id ∧
    f.returns = none ∧ later.inferred? id = some value.typeOf

/-- Nothing else is ever inferred. -/
theorem Next.infers (h : x.Next y) (hx : x.Consistent) (id : Nat) :
    y.inferred? id = x.inferred? id ∨ x.Infers y id := by
  cases h with
  | quiet _ hinferred => exact .inl (World.inferred?_congr hinferred id)
  | done event hevents heffect =>
    have heq : y.inferred? id = (x.inferred? id).or (event.result? id) := heffect.inferred?_eq id
    cases hunknown : x.inferred? id with
    | some t => exact .inl (by rw [heq, hunknown, Option.some_or])
    | none =>
      rw [hunknown, Option.none_or] at heq
      cases event with
      | declaredGlobal name binding => exact .inl heq
      | made f => exact .inl heq
      | returned f value =>
        rw [Event.result?] at heq
        split at heq
        · next hf =>
          refine .inr ⟨hunknown, fun g other hmem hid hg => ?_, f, value, hevents, hf.1, hf.2, heq⟩
          have hknown : x.inferred? g.id = some other.typeOf := (hx g other hmem).inferred?_eq hg
          rw [hid, hunknown] at hknown
          cases hknown
        · exact .inl heq

/-- The functions made so far have numbers of their own. -/
structure Numbered (x : Moment) : Prop where
  lt_size : ∀ f, .made f ∈ x.events → f.id < x.state.world.inferred.size
  distinct : x.events.Pairwise fun later earlier =>
    ∀ f g, later = .made f → earlier = .made g → f.id ≠ g.id

theorem Next.numbered (h : x.Next y) (hx : x.Numbered) : y.Numbered := by
  have hsize := h.size_le
  cases h with
  | quiet hevents _ =>
    refine ⟨fun f hmem => ?_, hevents ▸ hx.distinct⟩
    rw [hevents] at hmem
    exact lt_of_lt_of_le (hx.lt_size f hmem) hsize
  | done event hevents heffect =>
    refine ⟨fun f hmem => ?_, ?_⟩
    · rw [hevents, List.mem_cons] at hmem
      obtain rfl | hmem := hmem
      · rw [heffect.1, heffect.2, Array.size_push]
        exact Nat.lt_succ_self _
      · exact lt_of_lt_of_le (hx.lt_size f hmem) hsize
    · rw [hevents]
      refine List.pairwise_cons.2 ⟨fun earlier hmem f g hf hg => ?_, hx.distinct⟩
      subst hf hg
      exact heffect.1 ▸ (hx.lt_size g hmem).ne'

end Moment

/-! ### Runs -/

namespace Machine

/-- The moments that a machine has gone through since the first one follow upon each other up to the
present. -/
structure Logged (first : Moment) (m : Machine) : Prop where
  latest : m.moments.head? = some m.now
  steps : m.moments.IsChain fun later earlier => earlier.Next later
  first : m.moments.getLast? = some first

namespace Logged

variable {first : Moment} {m n : Machine}

theorem cons (h : m.Logged first) (hmoments : n.moments = n.now :: m.moments)
    (hnext : m.now.Next n.now) : n.Logged first where
  latest := by rw [hmoments, List.head?_cons]
  steps := by
    rw [hmoments, List.isChain_cons]
    refine ⟨fun earlier hmem => ?_, h.steps⟩
    rw [h.latest, Option.mem_some_iff] at hmem
    exact hmem ▸ hnext
  first := by rw [hmoments, List.getLast?_cons, h.first, Option.getD_some]

/-- A step in which nothing is done. -/
theorem quiet (h : m.Logged first) {calls : List UserFunction → List UserFunction}
    {f : State → State} (hf : (f m.toState).world.inferred = m.world.inferred) :
    (m.stepWith calls f).Logged first :=
  h.cons (by simp) (.quiet (by simp) (by rw [now_stepWith]; exact hf))

theorem step (h : m.Logged first) {f : State → State}
    (hf : (f m.toState).world.inferred = m.world.inferred) : (m.step f).Logged first :=
  h.quiet hf

theorem done (h : m.Logged first) {f : State → State} (event : Event)
    (heffect : event.Effect m.world (f m.toState).world) :
    (m.stepWith id f [event]).Logged first :=
  h.cons (by simp) (.done event (by simp) (by rw [now_stepWith]; exact heffect))

theorem raise (h : m.Logged first) (cause : Cause) : (m.raise cause).Logged first := by
  refine ⟨?_, ?_, ?_⟩
  · rw [moments_raise, now_raise, h.latest]
  · rw [moments_raise]
    exact h.steps
  · rw [moments_raise, h.first]

/-- What holds at first and goes over from each moment to the next holds always. -/
theorem induction {P : Moment → Prop} (h : m.Logged first) (hfirst : P first)
    (hnext : ∀ {x y : Moment}, x.Next y → P x → P y) : ∀ x ∈ m.moments, P x := by
  refine h.steps.backwards_induction P _ (fun _ _ => hnext) fun hne => ?_
  rw [List.getLast_eq_iff_getLast?_eq_some hne |>.2 h.first]
  exact hfirst

/-- What was inferred stays so for the rest of the run. -/
theorem kept (h : m.Logged first) :
    m.moments.Pairwise fun later earlier => earlier.Kept later := by
  have : Trans (flip Moment.Kept) (flip Moment.Kept) (flip Moment.Kept) := ⟨fun h h' => h'.trans h⟩
  have hsteps : m.moments.IsChain (flip Moment.Kept) := h.steps.imp fun _ _ hnext => hnext.kept
  have hkept : m.moments.Pairwise (flip Moment.Kept) := List.isChain_iff_pairwise.1 hsteps
  exact hkept

end Logged

end Machine

/-- What a primitive does is one thing at most. -/
theorem Machine.Logged.primitive {first : Moment} {own : Set String} {m n : Machine}
    (hm : m.Logged first) (h : Primitive own m n) : n.Logged first := by
  cases h with
  | wrote _ => exact hm.step rfl
  | warned _ => exact hm.step rfl
  | bound _ _ => exact hm.step rfl
  | boundGlobal _ => exact (hm.step rfl).done _ rfl
  | reassigned _ => exact hm.step rfl
  | returned htype hcheck =>
    exact hm.done _ (.inl ⟨⟨_, htype, DeclaredType.accepts_of_check hcheck⟩, rfl⟩)
  | inferred htype => exact hm.done _ (.inr ⟨htype, rfl⟩)
  | made hid => exact hm.done _ ⟨hid, rfl⟩
  | raised cause => exact hm.raise cause

theorem guarded_logged (first : Moment) :
    GuardedModules (Machine.Logged first) fun _ _ _ => True where
  refl := trivial
  trans _ _ := trivial
  mono _ _ := trivial
  primitive hm h := ⟨hm.primitive h, trivial⟩
  enterScope hm := hm.step rfl
  leaveScope _ hn _ := ⟨hn.step rfl, trivial⟩
  enterCall hm _ := hm.quiet rfl
  leaveCall _ hn _ := ⟨hn.quiet rfl, trivial⟩
  enterFile hm _ := hm.step rfl
  leaveFile _ hn _ := ⟨hn.step rfl, trivial⟩
  fresh hm := hm.quiet rfl
  resume _ hn _ := ⟨hn.cons (by simp) (.quiet (by simp) rfl), trivial⟩

/-- The moments of a run follow upon each other, from a first one before which nothing was done. -/
theorem Idle.logged {ctx : Context} {m : Machine} (h : Idle ctx m) :
    ∃ first, first.events = [] ∧ m.Logged first := by
  induction h with
  | first world =>
    have hstart (world : World) : ∃ first : Moment, first.events = [] ∧
        (Machine.start world).Logged first := by
      refine ⟨⟨.initial world, [], []⟩, rfl, ?_, ?_, ?_⟩
        <;> simp [Machine.start, Machine.now, Machine.moments, History.enter]
    unfold Machine.first
    split <;> exact hstart _
  | executed fuel source _ ih =>
    obtain ⟨first, hevents, hm⟩ := ih
    have hlawful : (alone (Machine.Logged first) fun _ _ _ => True).LawfulModules :=
      (guarded_logged first).lawful
    obtain ⟨-, ⟨-, hafter⟩, -⟩ := hlawful.execute (contexts_alone ctx) fuel source ⟨rfl, hm⟩
    exact ⟨first, hevents, hafter⟩

end Script

import Script.Proofs.Eval.Lockstep.Alone
import Script.Proofs.Scope.Bindings

/-!
# What evaluation leaves alone

Names are resolved in the scopes of the caller, so a function may assign to whatever variable it can
see. Still no scope that was there before an expression is evaluated has other names afterwards, nor
another value for a constant, nor a value of another type for a variable. Only the root scope may
have been given more, by `global` declarations. A statement of a body may in addition bind the name
that it declares.
-/

namespace Script

open Lockstep

/-- A constant keeps its value, and a variable the type of its value. -/
def Binding.Kept (old new : Binding) : Prop :=
  new.constant = old.constant ∧
    if old.constant then new.value = old.value else new.value.typeOf = old.value.typeOf

/-- What the latest `global` declaration of a name bound it to. -/
def latestGlobal (name : String) (events : List Event) : Option Binding :=
  events.findSome? fun
    | .declaredGlobal other binding => if other = name then some binding else none
    | .made _ | .returned .. => none

/-- What a scope binds a name to, once `global` declarations have been made. -/
def Arena.bindingAfter (a : Arena) (events : List Event) (name : String) (id : ScopeId) :
    Option Binding :=
  if id = root then (latestGlobal name events).or (a.binding? name id) else a.binding? name id

/-- From `m` to `n` every live scope has kept its names, up to those of `own` in the active scope
and to what `global` declarations have bound in the root scope. -/
structure Frame (own : Set String) (m n : Machine) : Prop where
  active : n.active = m.active
  live : ∀ id, m.arena.isLive id → n.arena.isLive id
  kept : ∃ later, n.now.events = later ++ m.now.events ∧
    ∀ id, m.arena.isLive id → ∀ name, ¬(id = m.active ∧ name ∈ own) →
      Option.Rel Binding.Kept (m.arena.bindingAfter later name id) (n.arena.binding? name id)

namespace Binding.Kept

theorem refl (binding : Binding) : binding.Kept binding := by
  refine ⟨rfl, ?_⟩
  split <;> rfl

theorem trans {first second third : Binding} (h : first.Kept second) (h' : second.Kept third) :
    first.Kept third := by
  obtain ⟨hconstant, hvalue⟩ := h
  obtain ⟨hconstant', hvalue'⟩ := h'
  refine ⟨hconstant'.trans hconstant, ?_⟩
  rw [hconstant] at hvalue'
  split at hvalue
  · next h =>
    rw [if_pos h] at hvalue'
    rw [if_pos h]
    exact hvalue'.trans hvalue
  · next h =>
    rw [if_neg h] at hvalue'
    rw [if_neg h]
    exact hvalue'.trans hvalue

theorem option_refl (binding : Option Binding) : Option.Rel Kept binding binding := by
  cases binding with
  | none => exact .none
  | some binding => exact .some (refl binding)

theorem option_trans {first second third : Option Binding} (h : Option.Rel Kept first second)
    (h' : Option.Rel Kept second third) : Option.Rel Kept first third := by
  cases h with
  | none => exact h'
  | some h =>
    cases h' with
    | some h' => exact .some (h.trans h')

theorem option_or {later first second : Option Binding} (h : Option.Rel Kept first second) :
    Option.Rel Kept (later.or first) (later.or second) := by
  cases later with
  | none => exact h
  | some binding => exact option_refl (some binding)

end Binding.Kept

theorem latestGlobal_append (name : String) (later earlier : List Event) :
    latestGlobal name (later ++ earlier) =
      (latestGlobal name later).or (latestGlobal name earlier) :=
  List.findSome?_append

namespace Frame

variable {own own' : Set String} {m n k : Machine}

theorem of_arena_eq (hactive : n.active = m.active) (harena : n.arena = m.arena)
    (hevents : ∃ later, n.now.events = later ++ m.now.events ∧
      ∀ name, latestGlobal name later = none) :
    Frame own m n := by
  obtain ⟨later, heq, hnone⟩ := hevents
  refine ⟨hactive, fun id hlive => harena ▸ hlive, later, heq, fun id _ name _ => ?_⟩
  rw [harena, Arena.bindingAfter, hnone]
  split <;> exact Binding.Kept.option_refl _

theorem refl (m : Machine) : Frame own m m :=
  of_arena_eq rfl rfl ⟨[], rfl, fun _ => rfl⟩

theorem trans (h : Frame own m n) (h' : Frame own n k) : Frame own m k := by
  obtain ⟨later, hevents, hkept⟩ := h.kept
  obtain ⟨later', hevents', hkept'⟩ := h'.kept
  refine ⟨h'.active.trans h.active, fun id hlive => h'.live id (h.live id hlive), later' ++ later,
    by rw [hevents', hevents, List.append_assoc], fun id hlive name hown => ?_⟩
  have hfirst := hkept id hlive name hown
  have hsecond := hkept' id (h.live id hlive) name (by rwa [h.active])
  refine Binding.Kept.option_trans ?_ hsecond
  unfold Arena.bindingAfter at hfirst ⊢
  split
  · next hroot =>
    rw [if_pos hroot] at hfirst
    rw [latestGlobal_append, Option.or_assoc]
    exact Binding.Kept.option_or hfirst
  · next hroot =>
    rw [if_neg hroot] at hfirst
    exact hfirst

theorem mono (hown : own ⊆ own') (h : Frame own m n) : Frame own' m n := by
  obtain ⟨later, hevents, hkept⟩ := h.kept
  exact ⟨h.active, h.live, later, hevents, fun id hlive name hnot =>
    hkept id hlive name fun hmem => hnot ⟨hmem.1, hown hmem.2⟩⟩

/-- A step that binds a name in a scope, where it may. -/
theorem of_bound {name : String} {target : ScopeId} {binding : Binding} {later : List Event}
    (hactive : n.active = m.active) (hlive : ∀ id, m.arena.isLive id → n.arena.isLive id)
    (hevents : n.now.events = later ++ m.now.events)
    (hbound : ∀ other id, n.arena.binding? other id =
      if id = target ∧ other = name then some binding else m.arena.binding? other id)
    (hglobal : ∀ other, latestGlobal other later = none ∨ target = Arena.root ∧ other = name)
    (hself : (target = m.active ∧ name ∈ own) ∨
      Option.Rel Binding.Kept (m.arena.bindingAfter later name target) (some binding)) :
    Frame own m n := by
  refine ⟨hactive, hlive, later, hevents, fun id _ other hnot => ?_⟩
  rw [hbound]
  split
  · next h =>
    obtain ⟨rfl, rfl⟩ := h
    exact hself.resolve_left hnot
  · next h =>
    unfold Arena.bindingAfter
    split
    · next hroot =>
      obtain hnone | ⟨htarget, hname⟩ := hglobal other
      · rw [hnone]
        exact Binding.Kept.option_refl _
      · exact absurd ⟨hroot.trans htarget.symm, hname⟩ h
    · exact Binding.Kept.option_refl _

theorem of_bind {scope : ScopeId} {name : String} {value : Value} {constant : Bool}
    {later : List Event} (hbind : m.arena.bind scope name value constant = .ok n.arena)
    (hactive : n.active = m.active) (hevents : n.now.events = later ++ m.now.events)
    (hglobal : ∀ other, latestGlobal other later = none ∨ scope = Arena.root ∧ other = name)
    (hself : (scope = m.active ∧ name ∈ own) ∨
      Option.Rel Binding.Kept (m.arena.bindingAfter later name scope)
        (some ⟨value.promote, constant⟩)) : Frame own m n :=
  of_bound hactive (fun id hlive =>
    (Arena.isLive_congr (Arena.sameShape_bind hbind).link? id).trans hlive) hevents
    (Arena.binding?_bind hbind) hglobal hself

/-- A name is bound in the active scope, as it may. -/
theorem of_bind_active {name : String} {value : Value} {constant : Bool} (hown : name ∈ own)
    (hbind : m.arena.bind m.active name value constant = .ok n.arena)
    (hactive : n.active = m.active) (hevents : n.now.events = m.now.events) : Frame own m n :=
  of_bind hbind hactive (show _ = [] ++ _ from hevents) (fun _ => .inl rfl) (.inl ⟨rfl, hown⟩)

/-- A name is bound in the root scope by a `global` declaration. -/
theorem of_bind_root {name : String} {value : Value} {constant : Bool}
    (hbind : m.arena.bind Arena.root name value constant = .ok n.arena)
    (hactive : n.active = m.active)
    (hevents : n.now.events = .declaredGlobal name ⟨value.promote, constant⟩ :: m.now.events) :
    Frame own m n := by
  refine of_bind hbind hactive
    (show _ = [Event.declaredGlobal name ⟨value.promote, constant⟩] ++ _ from hevents)
    (fun other => ?_) (.inr ?_)
  · by_cases h : name = other
    · exact .inr ⟨rfl, h.symm⟩
    · exact .inl (by simp [latestGlobal, h])
  · rw [Arena.bindingAfter, if_pos rfl]
    simpa [latestGlobal] using Binding.Kept.refl _

/-- What happens in a new scope is over when it is left. -/
theorem of_scope (hm : m.arena.Tidy) (h : Frame .univ m.enterScope n) :
    Frame own m (m.leaveScope n) := by
  have hne {id : ScopeId} (hlive : m.arena.isLive id) :
      id ≠ (m.arena.create (some m.active)).1 := by
    rintro rfl
    rw [Arena.isLive, Arena.get?_create_self hm] at hlive
    cases hlive
  have henter {id : ScopeId} (hlive : m.arena.isLive id) :
      m.enterScope.arena.get? id = m.arena.get? id :=
    (Arena.get?_create hm _ id).trans (if_neg (hne hlive))
  have hleave {id : ScopeId} (hlive : m.arena.isLive id) :
      (m.leaveScope n).arena.get? id = n.arena.get? id :=
    (Arena.get?_release _ _ id).trans (if_neg (hne hlive))
  have hinside {id : ScopeId} (hlive : m.arena.isLive id) : m.enterScope.arena.isLive id := by
    rwa [Arena.isLive, henter hlive]
  obtain ⟨later, hevents, hkept⟩ := h.kept
  refine ⟨rfl, fun id hlive => ?_, later, ?_, fun id hlive name _ => ?_⟩
  · rw [Arena.isLive, hleave hlive]
    exact h.live id (hinside hlive)
  · simpa [Machine.leaveScope, Machine.enterScope] using hevents
  · have hbinding := hkept id (hinside hlive) name fun hself => hne hlive hself.1
    unfold Arena.bindingAfter Arena.binding? at hbinding ⊢
    rw [henter hlive] at hbinding
    rwa [hleave hlive]

theorem of_reassign {scope : ScopeId} {name : String} {value : Value}
    (hreassign : m.arena.reassign scope name value = .ok n.arena) (hactive : n.active = m.active)
    (hevents : n.now.events = m.now.events) : Frame own m n := by
  obtain ⟨target, old, hold, htype, hbound⟩ := Arena.binding?_reassign hreassign
  refine of_bound hactive (fun id hlive =>
    (Arena.isLive_congr (Arena.sameShape_reassign hreassign).link? id).trans hlive)
    (show _ = [] ++ _ from hevents) hbound (fun _ => .inl rfl) (.inr ?_)
  have hbefore : m.arena.bindingAfter [] name target = some ⟨old, false⟩ := by
    unfold Arena.bindingAfter
    split <;> simpa [latestGlobal] using hold
  rw [hbefore]
  exact .some ⟨rfl, (Value.typeOf_promote value).trans htype⟩

/-- What a primitive does. -/
theorem of_primitive (h : Primitive own m n) : Frame own m n := by
  cases h with
  | wrote output => exact of_arena_eq rfl rfl ⟨[], by simp, fun _ => rfl⟩
  | warned warning => exact of_arena_eq rfl rfl ⟨[], by simp, fun _ => rfl⟩
  | bound hname hbind => exact of_bind_active hname hbind rfl (by simp)
  | boundGlobal hbind => exact of_bind_root hbind rfl (by simp)
  | reassigned hreassign => exact of_reassign hreassign rfl (by simp)
  | @returned f value => exact of_arena_eq rfl rfl ⟨[.returned f value], by simp, fun _ => rfl⟩
  | @inferred f value => exact of_arena_eq rfl rfl ⟨[.returned f value], by simp, fun _ => rfl⟩
  | @made f => exact of_arena_eq rfl rfl ⟨[.made f], by simp, fun _ => rfl⟩
  | raised cause =>
    exact of_arena_eq rfl rfl ⟨[], by simp, fun _ => rfl⟩

end Frame

theorem Primitive.tidy {own : Set String} {m n : Machine} (h : Primitive own m n)
    (hm : m.arena.Tidy) : n.arena.Tidy := by
  cases h with
  | bound _ hbind => exact (Arena.sameShape_bind hbind).tidy hm
  | boundGlobal hbind => exact (Arena.sameShape_bind hbind).tidy hm
  | reassigned hreassign => exact (Arena.sameShape_reassign hreassign).tidy hm
  | _ => exact hm

theorem guarded_frame : Guarded (fun m => m.arena.Tidy) Frame where
  refl := .refl _
  trans := .trans
  mono := .mono
  primitive hm h := ⟨h.tidy hm, .of_primitive h⟩
  enterScope hm := hm.create _
  leaveScope hm hn hframe := ⟨hn.release _, .of_scope hm hframe⟩
  enterCall hm _ := hm
  leaveCall {m n f} _ hn hframe := by
    have hafter : Frame ∅ n n.leaveCall :=
      .of_arena_eq rfl rfl ⟨[], by simp [Machine.leaveCall], fun _ => rfl⟩
    have hbefore : Frame ∅ m (m.enterCall f) :=
      .of_arena_eq rfl rfl ⟨[], by simp [Machine.enterCall], fun _ => rfl⟩
    exact ⟨hn, (hbefore.trans hframe).trans hafter⟩

namespace Lockstep

/-- A run that keeps the arena tidy and every scope in its frame. -/
def framed : Lockstep := alone (fun m => m.arena.Tidy) Frame

instance : framed.Exact := inferInstanceAs (alone _ _).Exact

theorem lawful_framed : framed.LawfulTopLevels := guarded_frame.lawful

end Lockstep

/-! ### Expressions without calls -/

mutual

/-- Whether an expression has no call in it. -/
def Expr.isCallFree : Expr → Bool
  | .number .. | .string .. | .boolean .. | .symbol .. => true
  | .list elements _ => areCallFree elements
  | .binary left _ right _ => left.isCallFree && right.isCallFree
  | .unary _ operand _ => operand.isCallFree
  | .call .. => false
  | .index target position _ => target.isCallFree && position.isCallFree

def Expr.areCallFree : List Expr → Bool
  | [] => true
  | expr :: exprs => expr.isCallFree && areCallFree exprs

end

namespace Lockstep

/-- A run that leaves the whole state as it is. -/
def still : Lockstep := alone (fun _ => True) fun _ m n => n.toState = m.toState

instance : still.Exact := inferInstanceAs (alone _ _).Exact

theorem steady_still : still.Steady where
  toStopping := .of_exact
  refl := rfl
  trans h h' := h'.trans h
  mono _ h := h
  raised := by
    rintro m _ ⟨rfl, -⟩ cause
    exact ⟨⟨rfl, trivial⟩, rfl⟩

theorem still_ofExcept (result : Except Cause α) (m : Machine) :
    still.At ∅ Same (Run.ofExcept result) (Run.ofExcept result) m m :=
  steady_still.ofExcept_same ⟨rfl, trivial⟩ rfl

theorem still_bind {x : Run α} {f : α → Run β}
    (hx : ∀ m, still.At ∅ Same x x m m) (hf : ∀ a m, still.At ∅ Same (f a) (f a) m m)
    (m : Machine) :
    still.At ∅ Same (x >>= f) (x >>= f) m m :=
  steady_still.bind (hx m) fun a a' n n' hn ha => by
    obtain ⟨rfl, -⟩ := hn
    subst ha
    exact hf _ _

theorem still_pure (a : α) (m : Machine) : still.At ∅ Same (pure a : Run α) (pure a) m m :=
  steady_still.pure ⟨rfl, trivial⟩ rfl

theorem still_connect (op : Connective) {left right : Run Value}
    (hleft : ∀ m, still.At ∅ Same left left m m) (hright : ∀ m, still.At ∅ Same right right m m) :
    ∀ m, still.At ∅ Same (connect op left right) (connect op left right) m m := by
  refine still_bind hleft fun first => still_bind (still_ofExcept _) fun holds => ?_
  split
  · exact still_pure _
  · exact still_pure _
  · exact still_bind hright fun second => still_bind (still_ofExcept _) fun _ => still_pure _

mutual

theorem still_evaluate (call : Caller) : (expr : Expr) → expr.isCallFree → ∀ m,
    still.At ∅ Same (evaluate call expr) (evaluate call expr) m m
  | .number n _, _ => by
    rw [evaluate]
    exact still_pure _
  | .string s _, _ => by
    rw [evaluate]
    exact still_pure _
  | .boolean b _, _ => by
    rw [evaluate]
    exact still_pure _
  | .symbol name _, _ => by
    rw [evaluate]
    exact fun m => .get (still_ofExcept _ m)
  | .list elements _, h => by
    rw [evaluate]
    exact still_bind (still_evaluateAll call elements (by simpa [Expr.isCallFree] using h))
      fun _ => still_pure _
  | .binary left operator right _, h => by
    rw [Expr.isCallFree, Bool.and_eq_true] at h
    have hleft := still_evaluate call left h.1
    have hright := still_evaluate call right h.2
    rw [evaluate]
    split
    · exact still_connect _ hleft hright
    · exact still_bind hleft fun _ => still_bind hright fun _ => still_ofExcept _
  | .unary operator operand _, h => by
    rw [evaluate]
    exact still_bind (still_evaluate call operand (by simpa [Expr.isCallFree] using h))
      fun _ => still_ofExcept _
  | .call .., h => nomatch h
  | .index target index _, h => by
    rw [Expr.isCallFree, Bool.and_eq_true] at h
    rw [evaluate]
    refine still_bind (still_evaluate call target h.1) fun _ => ?_
    refine still_bind (still_evaluate call index h.2) fun _ => ?_
    exact still_bind (still_ofExcept _) fun _ => still_ofExcept _

theorem still_evaluateAll (call : Caller) : (exprs : List Expr) → Expr.areCallFree exprs → ∀ m,
    still.At ∅ Same (evaluateAll call exprs) (evaluateAll call exprs) m m
  | [], _ => by
    rw [evaluateAll]
    exact still_pure _
  | expr :: exprs, h => by
    rw [Expr.areCallFree, Bool.and_eq_true] at h
    rw [evaluateAll]
    refine still_bind (still_evaluate call expr h.1) fun _ => ?_
    exact still_bind (still_evaluateAll call exprs h.2) fun _ => still_pure _

end

end Lockstep

/-- From every state that a program can come to, evaluating an expression keeps every scope in its
frame, however it ends, and changes nothing if there is no call in the expression. A statement of a
body does so too, but for the name that it declares in the active scope. -/
theorem Reachable.evaluation_frame {ctx : Context} {m : Machine} (h : Reachable ctx m) (fuel : Nat)
    (file : String) :
    let ctx' := { ctx with file }
    let call := callFunction ctx' fuel
    (∀ expr, Frame ∅ m ((evaluate call expr).after m)) ∧
    (∀ f stmt, Frame stmt.declares m ((runStmt ctx' call fuel f stmt).after m)) ∧
    ∀ expr, expr.isCallFree → ((evaluate call expr).after m).toState = m.toState := by
  intro ctx' call
  have htidy : m.arena.Tidy := h.sound.tidy
  have hcall : framed.Calls call call := lawful_framed.callFunction rfl rfl fuel
  refine ⟨fun expr => ?_, fun f stmt => ?_, fun expr hexpr => ?_⟩
  · exact (lawful_framed.evaluate hcall expr m m ⟨rfl, htidy⟩).after.2
  · exact (lawful_framed.runStmt hcall rfl stmt m m ⟨rfl, htidy⟩).after.2
  · exact (still_evaluate call expr hexpr m).after.2

theorem Reachable.evaluation_frame_of_assignment :
    let ctx : Context := ⟨"main.vi", false, 200, .standard, .empty⟩
    let source := "let n = 1; fn f() \x7b n = 2; global let k = n; \x7d fn main(files) \x7b \x7d"
    let m := (execute 4 ctx source (.first ctx (.empty none))).2
    let call : Expr := .call (.symbol "f" default) [] default
    Reachable ctx m ∧ Frame ∅ m ((evaluate (callFunction ctx 4) call).after m) := by
  intro ctx source m call
  have h : Reachable ctx m := ((Idle.first _).executed 4 source).reachable
  exact ⟨h, (h.evaluation_frame 4 "main.vi").1 call⟩

end Script
